import Restyle.Css.Token
import Restyle.Proofs.Css.Scan

/-!
# The lexer, one token at a time

Every recogniser leaves a suffix of what it was given, and each that takes something takes a
character at least.  So the number of tokens that `Token.first` is allowed never cuts a text short,
and `lex`, all tokens of a text, is given by one equation: the first token, then those of the text
behind it (`lex_cons`).
-/

namespace Restyle.Css

namespace Token

/-- White space is one of five characters. -/
theorem space_cases {c : Char} (h : isSpace c = true) :
    c = ' ' ∨ c = '\t' ∨ c = '\n' ∨ c = '\r' ∨ c = '\x0c' := by
  simpa [isSpace, or_assoc] using h

/-! ### What a recogniser leaves -/

/-- An escape is at least one character, and what is left stands at the end. -/
theorem escape?_suffix {s t : List Char} (h : escape? s = some t) : t <:+ s.tail := by
  unfold escape? at h
  split at h
  · next c s =>
      split at h
      · cases h
      · split at h
        · have hdrop := List.drop_suffix (leading isHex 5 s) s
          split at h
          · next d u hd =>
              rw [hd] at hdrop
              cases h
              refine List.IsSuffix.trans ?_ (hdrop.trans (List.suffix_cons c s))
              split
              · exact List.suffix_cons d u
              · exact List.suffix_rfl
          · cases h
            exact List.nil_suffix
        · cases h
          exact (List.drop_suffix _ s).trans (List.suffix_cons c s)
  · cases h

/-- The rest of a name may be empty. -/
theorem nameRest_suffix (skip : Nat) (s : List Char) : nameRest skip s <:+ s := by
  fun_induction nameRest skip s with
  | case1 => exact List.suffix_rfl
  | case2 c s k ih => exact ih.trans (List.suffix_cons c s)
  | case3 c s _ ih => exact ih.trans (List.suffix_cons c s)
  | case4 c s _ t _ ih => exact ih.trans (List.suffix_cons c s)
  | case5 c s => exact List.suffix_rfl

/-- The first part of a name is at least one character. -/
theorem namePart?_suffix {first : Char → Bool} {s t : List Char} (h : namePart? first s = some t) :
    t <:+ s.tail := by
  unfold namePart? at h
  split at h
  · split at h
    · cases h; exact List.suffix_rfl
    · exact escape?_suffix h
  · cases h

theorem ident?_suffix {s t : List Char} (h : ident? s = some t) : t <:+ s.tail := by
  unfold ident? at h
  obtain ⟨u, hu, rfl⟩ := Option.map_eq_some_iff.1 h
  have hpart := (nameRest_suffix 0 u).trans (namePart?_suffix hu)
  split at hpart
  · next t => exact hpart.trans (List.tail_suffix t)
  · exact hpart

theorem hash?_suffix {s t : List Char} (h : hash? s = some t) : t <:+ s.tail := by
  unfold hash? at h
  split at h
  · next s =>
      obtain ⟨u, hu, rfl⟩ := Option.map_eq_some_iff.1 h
      exact ((nameRest_suffix 0 u).trans (namePart?_suffix hu)).trans (List.tail_suffix s)
  · cases h

theorem customName?_suffix {s t : List Char} (h : customName? s = some t) : t <:+ s.tail := by
  unfold customName? at h
  split at h
  · next s =>
      cases h
      exact (nameRest_suffix 0 s).trans (List.suffix_cons _ s)
  · cases h

theorem digits?_suffix {s t : List Char} (h : digits? s = some t) : t <:+ s.tail := by
  unfold digits? at h
  split at h
  · split at h
    · cases h; exact List.dropWhile_suffix _
    · cases h
  · cases h

theorem sign_suffix (s : List Char) : sign s <:+ s := by
  unfold sign
  split
  · next c t =>
      split
      · exact List.suffix_cons c t
      · exact List.suffix_rfl
  · exact List.suffix_rfl

theorem fraction?_suffix {s t : List Char} (h : fraction? s = some t) : t <:+ s.tail := by
  unfold fraction? at h
  split at h
  · next s => exact (digits?_suffix h).trans (List.tail_suffix s)
  · cases h

theorem mantissa?_suffix {s t : List Char} (h : mantissa? s = some t) : t <:+ s.tail := by
  unfold mantissa? at h
  split at h
  · next u hu =>
      cases h
      cases hf : fraction? u with
      | none => exact digits?_suffix hu
      | some v => exact ((fraction?_suffix hf).trans (List.tail_suffix u)).trans (digits?_suffix hu)
  · exact fraction?_suffix h

theorem exponent_suffix (s : List Char) : exponent s <:+ s := by
  unfold exponent
  split
  · next c t =>
      split
      · cases hd : digits? (sign t) with
        | none => exact List.suffix_rfl
        | some u =>
            have hu := (digits?_suffix hd).trans (List.tail_suffix _)
            exact (hu.trans (sign_suffix t)).trans (List.suffix_cons c t)
      · exact List.suffix_rfl
  · exact List.suffix_rfl

/-- A number is at least one character. -/
theorem number?_suffix {s t : List Char} (h : number? s = some t) : t <:+ s.tail := by
  obtain ⟨u, hu, rfl⟩ := Option.map_eq_some_iff.1 h
  have htail : (sign s).tail <:+ s.tail := by
    unfold sign
    split
    · next c t =>
        split
        · exact List.tail_suffix t
        · exact List.suffix_rfl
    · exact List.suffix_rfl
  exact ((exponent_suffix u).trans (mantissa?_suffix hu)).trans htail

theorem numeric?_suffix {s t : List Char} (h : numeric? s = some t) : t <:+ s.tail := by
  obtain ⟨u, hu, rfl⟩ := Option.map_eq_some_iff.1 h
  refine List.IsSuffix.trans ?_ (number?_suffix hu)
  split
  · next v => exact List.suffix_cons _ v
  · cases hi : ident? u with
    | none => exact List.suffix_rfl
    | some v => exact (ident?_suffix hi).trans (List.tail_suffix u)

/-- A string goes on for any length, also up to the end. -/
theorem stringRest_suffix (quote : Char) (skip : Nat) (s : List Char) :
    (stringRest quote skip s).2 <:+ s := by
  fun_induction stringRest quote skip s with
  | case1 => exact List.suffix_rfl
  | case3 c s | case4 c s => exact List.suffix_cons c s
  | case2 _ _ _ ih | case5 _ _ _ _ _ _ _ ih | case6 _ _ _ _ _ _ ih | case7 _ _ _ _ _ _ _ ih
  | case8 _ _ _ _ _ ih => exact ih.trans (List.suffix_cons _ _)

theorem badUrlRest_suffix (skip : Nat) (s : List Char) : badUrlRest skip s <:+ s := by
  fun_induction badUrlRest skip s with
  | case1 => exact List.suffix_rfl
  | case3 c s => exact List.suffix_cons c s
  | case2 _ _ _ ih | case4 _ _ _ _ _ ih | case5 _ _ _ _ ih => exact ih.trans (List.suffix_cons _ _)

theorem unquotedUrl_suffix (skip : Nat) (s : List Char) : (unquotedUrl skip s).2 <:+ s := by
  fun_induction unquotedUrl skip s with
  | case1 | case3 | case5 | case6 => exact List.suffix_rfl
  | case2 _ _ _ ih | case4 _ _ _ _ _ _ ih | case7 _ _ _ _ _ ih => exact ih.trans (List.suffix_cons _ _)

theorem urlEnd_suffix (s : List Char) : urlEnd s <:+ s := by
  unfold urlEnd
  have hdrop := List.dropWhile_suffix (l := s) isSpace
  split
  · exact List.nil_suffix
  · next t ht => rw [ht] at hdrop; exact (List.suffix_cons _ t).trans hdrop
  · next t _ _ => exact (badUrlRest_suffix 0 _).trans hdrop

/-- What is left behind a url stands at the end. -/
theorem urlRest_suffix (s : List Char) : urlRest s <:+ s := by
  unfold urlRest
  have hdrop := List.dropWhile_suffix (l := s) isSpace
  split
  · next c t ht =>
      rw [ht] at hdrop
      refine List.IsSuffix.trans ?_ hdrop
      have hstring := (stringRest_suffix c 0 t).trans (List.suffix_cons c t)
      have hplain := unquotedUrl_suffix 0 (c :: t)
      split
      · split
        · next u hu => rw [hu] at hstring; exact (urlEnd_suffix u).trans hstring
        · next u hu => rw [hu] at hstring; exact (badUrlRest_suffix 0 u).trans hstring
      · split
        · next u hu => rw [hu] at hplain; exact (urlEnd_suffix u).trans hplain
        · next d u hu =>
            rw [hu] at hplain
            split
            · exact ((urlEnd_suffix u).trans (List.suffix_cons d u)).trans hplain
            · exact (badUrlRest_suffix 0 _).trans hplain
        · exact List.nil_suffix
  · exact List.nil_suffix

/-- What begins as an identifier, functions and urls among it, is at least one character. -/
theorem identLike?_suffix {s : List Char} {r : Token × List Char} (h : identLike? s = some r) :
    r.2 <:+ s.tail := by
  obtain ⟨t, ht, rfl⟩ := Option.map_eq_some_iff.1 h
  refine List.IsSuffix.trans ?_ (ident?_suffix ht)
  split
  · next u hu =>
      have hsuffix : u <:+ t := ⟨['('], (after?_eq_some_iff.1 hu).symm⟩
      unfold call
      split
      · exact (urlRest_suffix u).trans hsuffix
      · exact hsuffix
  · exact List.suffix_rfl

theorem codePointRange?_suffix {s t : List Char} (h : codePointRange? s = some t) : t <:+ s := by
  unfold codePointRange? at h
  dsimp only at h
  have hdrop := List.drop_suffix (leading isHex 6 s) s
  split at h
  · next u hu =>
      rw [after?_eq_some_iff.1 hu] at hdrop
      split at h
      · cases h
      · cases h
        exact ((List.drop_suffix _ u).trans (List.suffix_cons _ u)).trans hdrop
  · split at h
    · cases h
    · cases h
      exact (List.drop_suffix _ _).trans hdrop

/-- A range of code points is at least one character. -/
theorem unicodeRange?_suffix {s t : List Char} (h : unicodeRange? s = some t) : t <:+ s.tail := by
  unfold unicodeRange? at h
  split at h
  · next u s =>
      split at h
      · exact (codePointRange?_suffix h).trans (List.suffix_cons _ s)
      · cases h
  · cases h

/-- A comment goes up to its end, or to that of the text. -/
theorem commentRest_suffix (s : List Char) : commentRest s <:+ s := by
  fun_induction commentRest s with
  | case1 => exact List.suffix_rfl
  | case2 s => exact (List.suffix_cons _ s).trans (List.suffix_cons _ _)
  | case3 c s _ ih => exact ih.trans (List.suffix_cons c s)

/-! ### The first token -/

/-- **What is tried at a character**: a property of all recognisers, from what is known of the
character where each is tried. -/
theorem forall_mem_recognisers {P : Pattern Token → Prop} {c : Char}
    (hblank : isSpace c = true → P blank?)
    (hstring : c = '"' ∨ c = '\'' → P string?)
    (hexactly : ∀ p t, c ≠ '\\' → (∀ x ∈ p, x ∈ ['=', '|', '-', '>', '!']) →
      c ∈ [':', ';', '{', '}'] ∨ t ∈ [other, opening, closing, markupComment] →
      P (exactly (c :: p) t))
    (hhash : P (taking .other hash?)) (hnumeric : P (taking .other numeric?))
    (hrange : P (taking .other unicodeRange?)) (hcustom : P (taking .customName customName?))
    (hident : P identLike?) (hat : P atKeyword?) (hcomment : P comment?) :
    ∀ r ∈ recognisers c, P r := by
  unfold recognisers
  split
  · next h => exact List.forall_mem_singleton.2 (hblank h)
  · split <;> simp_all

/-- The first token is what some recogniser finds, or a character on its own. -/
theorem next_cases (c : Char) (s : List Char) :
    (∃ r ∈ recognisers c, r (c :: s) = some (next c s)) ∨ next c s = (.delim c, s) := by
  unfold next
  cases h : (recognisers c).findSome? (· (c :: s)) with
  | none => exact .inr rfl
  | some x =>
      obtain ⟨r, hr, hx⟩ := List.exists_of_findSome?_eq_some h
      exact .inl ⟨r, hr, hx⟩

/-- A recogniser leaves what its reader leaves. -/
theorem taking_suffix {t : Token} {read? : List Char → Option (List Char)} {s : List Char}
    (h : ∀ u, read? s = some u → u <:+ s.tail) :
    ∀ x, taking t read? s = some x → x.2 <:+ s.tail := by
  intro x hx
  obtain ⟨u, hu, rfl⟩ := Option.map_eq_some_iff.1 hx
  exact h u hu

/-- **What is left behind a token** stands at the end of the text, so that reading tokens comes to an end. -/
theorem next_suffix (c : Char) (s : List Char) : (next c s).2 <:+ s := by
  rcases next_cases c s with ⟨r, hr, hx⟩ | h
  · refine forall_mem_recognisers (P := fun r => ∀ x, r (c :: s) = some x → x.2 <:+ s)
      ?_ ?_ ?_ ?_ ?_ ?_ ?_ ?_ ?_ ?_ r hr _ hx
    · rintro hc x ⟨⟩
      rw [List.dropWhile_cons_of_pos hc]
      exact List.dropWhile_suffix _
    · rintro - x ⟨⟩
      exact stringRest_suffix c 0 s
    · intro p t _ _ _
      refine taking_suffix fun u hu => ?_
      rw [after?_eq_some_iff, List.cons_append] at hu
      exact ⟨p, (List.cons.inj hu).2.symm⟩
    · exact taking_suffix fun u => hash?_suffix
    · exact taking_suffix fun u => numeric?_suffix
    · exact taking_suffix fun u => unicodeRange?_suffix
    · exact taking_suffix fun u => customName?_suffix
    · exact fun x => identLike?_suffix
    · intro x hat
      unfold atKeyword? at hat
      split at hat
      · next v hv =>
          cases hv
          obtain ⟨t, ht, rfl⟩ := Option.map_eq_some_iff.1 hat
          refine List.IsSuffix.trans ?_ (List.tail_suffix s)
          rcases Option.or_eq_some_iff.1 ht with hi | ⟨-, hn⟩
          · exact ident?_suffix hi
          · exact customName?_suffix hn
      · cases hat
    · intro x hcomment
      unfold comment? at hcomment
      split at hcomment
      · next v hv =>
          cases hv
          cases hcomment
          exact (commentRest_suffix v).trans (List.suffix_cons _ v)
      · cases hcomment
  · simp [h]

end Token

/-! ### All tokens -/

/-- The tokens of a text whose characters stand for bytes. -/
def lex (s : List Char) : List Token :=
  Token.first s.length s

/-- A count of tokens that is no less than the number of characters is no limit. -/
theorem first_eq_first {n m : Nat} {s : List Char} (hn : s.length ≤ n) (hm : s.length ≤ m) :
    Token.first n s = Token.first m s := by
  induction n generalizing m s with
  | zero =>
      obtain rfl : s = [] := List.eq_nil_of_length_eq_zero (Nat.le_zero.1 hn)
      cases m <;> rfl
  | succ n ih =>
      cases s with
      | nil => cases m <;> rfl
      | cons c s =>
          obtain ⟨k, rfl⟩ : ∃ k, m = k + 1 := Nat.exists_eq_succ_of_ne_zero (by simp at hm; omega)
          have hrest := (Token.next_suffix c s).length_le
          have hn' := hrest.trans (Nat.le_of_succ_le_succ hn)
          have hm' := hrest.trans (Nat.le_of_succ_le_succ hm)
          exact congrArg ((Token.next c s).1 :: ·) (ih hn' hm')

@[simp] theorem lex_nil : lex [] = [] :=
  rfl

/-- **The first token, then the tokens behind it.** -/
theorem lex_cons (c : Char) (s : List Char) :
    lex (c :: s) = (Token.next c s).1 :: lex (Token.next c s).2 :=
  congrArg ((Token.next c s).1 :: ·)
    (first_eq_first (Token.next_suffix c s).length_le (Nat.le_refl _))

theorem lex_eq_nil_iff {s : List Char} : lex s = [] ↔ s = [] := by
  cases s with
  | nil => simp
  | cons c s => simp [lex_cons]

end Restyle.Css
