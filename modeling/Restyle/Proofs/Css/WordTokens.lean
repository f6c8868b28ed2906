import Restyle.Proofs.Css.Word

/-!
# The tokens of a word

No recogniser that starts inside a word sees what stands behind it, with one exception: a name before
a parenthesis is the name of a function (`next_append`).  So the tokens of a word are the same wherever
it stands, but for a name at its end (`lex_append`).
-/

namespace Restyle.Css

open Token

/-! ### The first token of a word -/

/-- What is read where `t` stands behind the word `u`, when `x` is read without it: a name before a
parenthesis becomes the name of a function. -/
def called (u t : List Char) (x : Token × List Char) : Token × List Char :=
  if x = (.ident, []) ∧ t.head? = some '(' then call u t.tail else (x.1, x.2 ++ t)

/-- Only a name can be called. -/
theorem called_of_ne {x : Token × List Char} (h : x ≠ (.ident, [])) (u t : List Char) :
    called u t x = (x.1, x.2 ++ t) :=
  if_neg fun hx => h hx.1

/-- A recogniser that leaves a word of the word `u`, and sees of what stands behind it a parenthesis
at most. -/
structure ReadsWord (r : Pattern Token) (u t : List Char) : Prop where
  rest : ∀ {x}, r u = some x → firm x.2 = true
  behind : r (u ++ t) = (r u).map (called u t)

/-- A reader that stays within a word makes a recogniser that does. -/
theorem readsWord_taking {f : List Char → Option (List Char)} {x : Token} (hx : x ≠ .ident)
    {u t : List Char} (hrest : ∀ r, f u = some r → firm r = true)
    (hbehind : f (u ++ t) = (f u).map (· ++ t)) : ReadsWord (taking x f) u t where
  rest := by
    intro y hy
    obtain ⟨r, hr, rfl⟩ := Option.map_eq_some_iff.1 hy
    exact hrest r hr
  behind := by
    unfold taking
    rw [hbehind]
    cases f u with
    | none => rfl
    | some r =>
        have hne : (x, r) ≠ (.ident, []) := fun h => hx (congrArg Prod.fst h)
        exact congrArg some (called_of_ne hne u t).symm

theorem WordReader.readsWord {f : List Char → Option (List Char)} (hf : WordReader f) {x : Token}
    (hx : x ≠ .ident) {u t : List Char} (hu : firm u = true) (ht : Parts u t) :
    ReadsWord (taking x f) u t :=
  readsWord_taking hx (fun _ => hf.rest hu) (hf.behind hu ht)

/-- A fixed text without borders is recognised within a word. -/
theorem readsWord_exactly {c : Char} {p : List Char} {x : Token} {s t : List Char} (hc : c ≠ '\\')
    (hp : p.all (!('\\' :: borders).contains ·) = true) (hx : x ≠ .ident) (hu : firm (c :: s) = true)
    (ht : Parts (c :: s) t) : ReadsWord (exactly (c :: p) x) (c :: s) t := by
  have hs := spelled_tail hu hc
  have hcons : ∀ v, after? (c :: p) (c :: v) = after? p v := fun v => if_pos rfl
  refine readsWord_taking hx (fun r hr => ?_) ?_
  · rw [hcons] at hr
    exact (WordReader.after hp).rest hs hr
  · rw [List.cons_append, hcons, hcons]
    exact (WordReader.after hp).behind hs (ht.of_suffix (List.suffix_cons c s))

/-- What is recognised in neither case makes no difference. -/
theorem readsWord_of_none {r : Pattern Token} {u t : List Char} (hu : r u = none)
    (ht : r (u ++ t) = none) : ReadsWord r u t where
  rest h := by rw [hu] at h; cases h
  behind := by rw [hu, ht]; rfl

theorem atKeyword?_eq_none {c : Char} (hc : c ≠ '@') (s : List Char) :
    atKeyword? (c :: s) = none := by
  unfold atKeyword?
  split
  · next he => exact absurd (List.cons.inj he).1 hc
  · rfl

/-- At keywords are recognised within a word. -/
theorem readsWord_atKeyword? {c : Char} {s t : List Char} (hu : firm (c :: s) = true)
    (ht : Parts (c :: s) t) : ReadsWord atKeyword? (c :: s) t := by
  by_cases hc : c = '@'
  · subst hc
    have hs := spelled_tail hu (by decide)
    have hname := wordReader_ident?.orElse wordReader_customName?
    have hbehind := hname.behind hs (ht.of_suffix (List.suffix_cons '@' s))
    refine ⟨fun h => ?_, ?_⟩
    · obtain ⟨r, hr, rfl⟩ := Option.map_eq_some_iff.1 h
      exact hname.rest hs hr
    · simp only [List.cons_append, atKeyword?]
      rw [hbehind]
      cases (ident? s).or (customName? s) with
      | none => rfl
      | some r =>
          have hlen : (s ++ t).length - (r ++ t).length = s.length - r.length := by
            rw [List.length_append, List.length_append, Nat.add_sub_add_right]
          simp only [Option.map_some]
          rw [called_of_ne (by simp), hlen, List.take_append_of_le_length (Nat.sub_le _ _)]
  · exact readsWord_of_none (atKeyword?_eq_none hc s) (atKeyword?_eq_none hc (s ++ t))

theorem after?_paren_of_firm {u : List Char} (hu : firm u = true) : after? ['('] u = none := by
  refine after?_eq_none fun v hv => ?_
  rw [hv] at hu
  exact absurd hu (by simp [spelled, isPlain, borders])

/-- A name is recognised within a word, and called if a parenthesis follows. -/
theorem readsWord_identLike? {u t : List Char} (hu : firm u = true) (ht : Parts u t) :
    ReadsWord identLike? u t where
  rest := by
    intro y hy
    obtain ⟨r, hr, rfl⟩ := Option.map_eq_some_iff.1 hy
    have hrest := wordReader_ident?.rest hu hr
    rw [after?_paren_of_firm hrest]
    exact hrest
  behind := by
    unfold identLike?
    rw [wordReader_ident?.behind hu ht]
    cases hi : ident? u with
    | none => rfl
    | some r =>
        have hrest := wordReader_ident?.rest hu hi
        simp only [Option.map_some, after?_paren_of_firm hrest]
        refine congrArg some ?_
        cases r with
        | cons c r =>
            have hc : c ≠ '(' := by
              rintro rfl
              exact absurd hrest (by simp [spelled, isPlain, borders])
            rw [called_of_ne (by simp), List.cons_append,
              after?_eq_none fun v hv => hc (List.cons.inj hv).1]
        | nil =>
            rw [List.nil_append]
            cases hp : after? ['('] t with
            | some v =>
                -- the name is the whole word
                obtain rfl := after?_eq_some_iff.1 hp
                simp [called]
            | none =>
                have hhead : t.head? ≠ some '(' := by
                  intro h
                  obtain ⟨v, rfl⟩ := List.head?_eq_some_iff.1 h
                  cases hp
                simp [called, hhead]

theorem comment?_eq_none {s : List Char} (h : ¬ ['/', '*'] <+: s) : Token.comment? s = none := by
  unfold Token.comment?
  split
  · next v => exact absurd ⟨v, rfl⟩ h
  · rfl

/-- No comment is recognised in a word that opens none. -/
theorem readsWord_comment? {u t : List Char} (hopen : ¬ ['/', '*'] <:+: u) (hne : u ≠ [])
    (ht : Parts u t) : ReadsWord Token.comment? u t := by
  refine readsWord_of_none (comment?_eq_none fun h => hopen h.isInfix) (comment?_eq_none ?_)
  rintro ⟨v, hv⟩
  match u, hne with
  | [c], _ =>
      -- the star would be the first character behind the word
      obtain ⟨-, rfl⟩ : '/' = c ∧ '*' :: v = t := by simpa using hv
      exact absurd (ht '*' rfl).1 (by decide)
  | c :: d :: s, _ =>
      obtain ⟨rfl, rfl, -⟩ : '/' = c ∧ '*' = d ∧ v = s ++ t := by simpa using hv
      exact hopen ⟨[], s, rfl⟩

/-- A search whose answers are mapped finds what is mapped. -/
theorem findSome?_eq_map {α β γ : Type} {f : α → Option β} {h : β → γ} {g : α → Option γ} {l : List α}
    (hl : ∀ a ∈ l, g a = (f a).map h) : l.findSome? g = (l.findSome? f).map h := by
  induction l with
  | nil => rfl
  | cons a l ih =>
      rw [List.forall_mem_cons] at hl
      rw [List.findSome?_cons, List.findSome?_cons, hl.1]
      cases f a with
      | none => exact ih hl.2
      | some b => rfl

/-- All that is tried at a word reads it so. -/
theorem readsWord_of_mem {c : Char} {s t : List Char} (hu : firm (c :: s) = true)
    (hopen : ¬ ['/', '*'] <:+: c :: s) (ht : Parts (c :: s) t) :
    ∀ r ∈ recognisers c, ReadsWord r (c :: s) t := by
  refine forall_mem_recognisers ?_ ?_ ?_ ?_ ?_ ?_ ?_ ?_ ?_ ?_
  · intro hc
    rw [isSpace_of_firm hu] at hc
    cases hc
  · rintro (rfl | rfl) <;> exact absurd (by decide) (not_border_of_firm hu (by decide))
  · intro p x hc hp hx
    refine readsWord_exactly hc (List.all_eq_true.2 fun a ha => ?_) ?_ hu ht
    · have hp' := hp a ha
      simp only [List.mem_cons, List.not_mem_nil, or_false] at hp'
      rcases hp' with rfl | rfl | rfl | rfl | rfl <;> decide
    · rintro rfl
      rcases hx with hx | hx
      · simp only [List.mem_cons, List.not_mem_nil, or_false] at hx
        rcases hx with rfl | rfl | rfl | rfl <;>
          exact absurd (by decide) (not_border_of_firm hu (by decide))
      · simp at hx
  · exact wordReader_hash?.readsWord (by simp) hu ht
  · exact wordReader_numeric?.readsWord (by simp) hu ht
  · exact wordReader_unicodeRange?.readsWord (by simp) hu ht
  · exact wordReader_customName?.readsWord (by simp) hu ht
  · exact readsWord_identLike? hu ht
  · exact readsWord_atKeyword? hu ht
  · exact readsWord_comment? hopen (by simp) ht

/-- A word that starts with a backslash starts with a name. -/
theorem isSome_identLike?_of_escape {d : Char} {s : List Char} (hd : isEscapable d = true)
    (hs : firm s = true) : (identLike? ('\\' :: d :: s)).isSome = true := by
  have hpart : namePart? isNameStart ('\\' :: d :: s) = some (escapeRest d s) := by
    rw [← escape?_of_firm hd hs, namePart?, if_neg (by decide)]
  simp [identLike?, ident?, hpart]

/-- **The first token of a word** leaves a word, and what stands behind the word does not change it,
unless it is a name and meets a parenthesis. -/
theorem next_append {c : Char} {s t : List Char} (hu : firm (c :: s) = true)
    (hopen : ¬ ['/', '*'] <:+: c :: s) (ht : Parts (c :: s) t) :
    firm (next c s).2 = true ∧ next c (s ++ t) = called (c :: s) t (next c s) := by
  have hall := readsWord_of_mem hu hopen ht
  have hbehind := findSome?_eq_map fun r hr => (hall r hr).behind
  unfold next
  rw [← List.cons_append, hbehind]
  cases hf : (recognisers c).findSome? (· (c :: s)) with
  | some x =>
      obtain ⟨r, hr, hx⟩ := List.exists_of_findSome?_eq_some hf
      exact ⟨(hall r hr).rest hx, rfl⟩
  | none =>
      have hdelim : (delim c, s) ≠ (ident, []) := fun h => by cases h
      refine ⟨?_, (called_of_ne hdelim (c :: s) t).symm⟩
      rcases spelled_cases hu with ⟨-, hs⟩ | ⟨d, r, rfl, rfl, hd, hr⟩
      · exact hs
      · have hnone := List.findSome?_eq_none_iff.1 hf identLike? (List.mem_singleton.2 rfl)
        have hsome := isSome_identLike?_of_escape hd hr
        rw [hnone] at hsome
        cases hsome

/-- A token that ends and opens no item, and is read. -/
def isInner : Token → Bool
  | .blank | .comment | .semicolon | .leftBrace | .rightBrace => false
  | _ => true

theorem parts_nil (u : List Char) : Parts u [] :=
  fun _ h => by cases h

/-- The first token of a word is an inner one. -/
theorem isInner_next {c : Char} {s : List Char} (hu : firm (c :: s) = true)
    (hopen : ¬ ['/', '*'] <:+: c :: s) : isInner (next c s).1 = true := by
  have taken : ∀ {x : Token} {f : List Char → Option (List Char)}, isInner x = true →
      ∀ y, taking x f (c :: s) = some y → isInner y.1 = true := by
    intro x f hx y hy
    obtain ⟨r, -, rfl⟩ := Option.map_eq_some_iff.1 hy
    exact hx
  -- white space, the marks of structure and comments do not begin in a firm word
  rcases next_cases c s with ⟨r, hr, hx⟩ | h
  · refine forall_mem_recognisers (P := fun r => ∀ y, r (c :: s) = some y → isInner y.1 = true)
      ?_ ?_ ?_ (taken rfl) (taken rfl) (taken rfl) (taken rfl) ?_ ?_ ?_ r hr _ hx
    · intro hc
      rw [isSpace_of_firm hu] at hc
      cases hc
    · rintro - y ⟨⟩
      rfl
    · intro p x _ _ hx
      refine taken ?_
      rcases hx with hx | hx
      · simp only [List.mem_cons, List.not_mem_nil, or_false] at hx
        rcases hx with rfl | rfl | rfl | rfl <;>
          exact absurd (by decide) (not_border_of_firm hu (by decide))
      · simp only [List.mem_cons, List.not_mem_nil, or_false] at hx
        rcases hx with rfl | rfl | rfl | rfl <;> rfl
    · intro y hy
      obtain ⟨t, -, rfl⟩ := Option.map_eq_some_iff.1 hy
      unfold call
      repeat' split
      all_goals rfl
    · intro y hy
      unfold atKeyword? at hy
      split at hy
      · obtain ⟨t, -, rfl⟩ := Option.map_eq_some_iff.1 hy
        rfl
      · cases hy
    · intro y hy
      rw [comment?_eq_none fun h => hopen h.isInfix] at hy
      cases hy
  · rw [h]
    rfl

/-! ### All tokens of a word -/

/-- A word is taken apart token by token: what holds of the empty word, and of a word when it holds
of what the first token leaves of it, holds of every word. -/
theorem word_induction {P : List Char → Prop} (nil : P [])
    (cons : ∀ c s, firm (c :: s) = true → ¬ ['/', '*'] <:+: c :: s → P (next c s).2 → P (c :: s))
    {u : List Char} (hu : firm u = true) (hopen : ¬ ['/', '*'] <:+: u) : P u := by
  induction hlen : u.length using Nat.strongRecOn generalizing u with
  | ind len ih =>
      cases u with
      | nil => exact nil
      | cons c s =>
          have hsuffix := next_suffix c s
          refine cons c s hu hopen (ih (next c s).2.length ?_ ?_ ?_ rfl)
          · rw [← hlen]
            exact Nat.lt_succ_of_le hsuffix.length_le
          · exact (next_append hu hopen (parts_nil _)).1
          · exact fun h => hopen (h.trans (hsuffix.trans (List.suffix_cons c s)).isInfix)

/-- **All tokens of a word are inner ones.** -/
theorem isInner_of_mem_lex {u : List Char} (hu : firm u = true) (hopen : ¬ ['/', '*'] <:+: u) :
    ∀ x ∈ lex u, isInner x = true := by
  refine word_induction (P := fun u => ∀ x ∈ lex u, isInner x = true) ?_ ?_ hu hopen
  · exact List.forall_mem_nil _
  · intro c s hu hopen ih
    rw [lex_cons, List.forall_mem_cons]
    exact ⟨isInner_next hu hopen, ih⟩

/-- The tokens without a name at their end. -/
def withoutName (l : List Token) : List Token :=
  if l.getLast? = some .ident then l.dropLast else l

theorem withoutName_cons {x : Token} {l : List Token} (h : x ≠ .ident ∨ l ≠ []) :
    withoutName (x :: l) = x :: withoutName l := by
  unfold withoutName
  cases l with
  | nil =>
      have hx : x ≠ .ident := h.resolve_right fun hl => hl rfl
      simp [hx]
  | cons y l =>
      rw [List.getLast?_cons_cons]
      split <;> simp

/-- A parenthesis behind the word opens: the word ends in no `url`. -/
def callable (u : List Char) : Bool :=
  (lex (u ++ ['('])).getLast? == some .opening

theorem lex_paren (s : List Char) : lex ('(' :: s) = .opening :: lex s :=
  lex_cons '(' s

theorem parts_paren (u s : List Char) : Parts u ('(' :: s) := by
  rintro x ⟨⟩
  exact ⟨by decide, fun h => by cases h⟩

/-- A callable word that is one name is no `url`. -/
theorem isUrlName_of_callable {c : Char} {s : List Char} (hu : firm (c :: s) = true)
    (hopen : ¬ ['/', '*'] <:+: c :: s) (hname : next c s = (.ident, []))
    (hcall : callable (c :: s) = true) : isUrlName (c :: s) = false := by
  cases h : isUrlName (c :: s) with
  | false => rfl
  | true =>
      have hnext : next c (s ++ ['(']) = (.other, []) := by
        rw [(next_append hu hopen (parts_paren _ [])).2, hname]
        simp [called, call, h, urlRest]
      simp [callable, lex_cons, hnext] at hcall

/-- What a token leaves of a callable word is callable. -/
theorem callable_next {c : Char} {s : List Char} (hu : firm (c :: s) = true)
    (hopen : ¬ ['/', '*'] <:+: c :: s) (hname : next c s ≠ (.ident, []))
    (hcall : callable (c :: s) = true) : callable (next c s).2 = true := by
  have hnext := (next_append hu hopen (parts_paren _ [])).2
  rw [called_of_ne hname] at hnext
  unfold callable at hcall ⊢
  rw [List.cons_append, lex_cons, hnext] at hcall
  have hne : lex ((next c s).2 ++ ['(']) ≠ [] := by simp [lex_eq_nil_iff]
  obtain ⟨y, l, hl⟩ := List.exists_cons_of_ne_nil hne
  rw [hl] at hcall ⊢
  rwa [List.getLast?_cons_cons] at hcall

/-- **The tokens of a word do not depend on what stands behind it**, but for a name that meets a
parenthesis. -/
theorem lex_append {u t : List Char} (hu : firm u = true) (hopen : ¬ ['/', '*'] <:+: u)
    (ht : Parts u t) (hcall : t.head? = some '(' → callable u = true) :
    lex (u ++ t) = (if t.head? = some '(' then withoutName (lex u) else lex u) ++ lex t := by
  revert ht hcall
  refine word_induction (P := fun u => Parts u t → (t.head? = some '(' → callable u = true) →
    lex (u ++ t) = (if t.head? = some '(' then withoutName (lex u) else lex u) ++ lex t) ?_ ?_ hu hopen
  · intro _ _
    simp [withoutName]
  · intro c s hu hopen ih ht hcall
    rw [List.cons_append, lex_cons, lex_cons, (next_append hu hopen ht).2]
    by_cases hname : next c s = (.ident, [])
    · rw [hname]
      by_cases hp : t.head? = some '('
      · obtain ⟨v, rfl⟩ := List.head?_eq_some_iff.1 hp
        have hurl := isUrlName_of_callable hu hopen hname (hcall rfl)
        simp [called, call, hurl, withoutName, lex_paren]
      · simp [called, hp]
    · rw [called_of_ne hname, ih (ht.of_suffix ((next_suffix c s).trans (List.suffix_cons c s)))
        fun hp => callable_next hu hopen hname (hcall hp)]
      split
      · have hmore : (next c s).1 ≠ .ident ∨ lex (next c s).2 ≠ [] := by
          rw [ne_eq, ne_eq, lex_eq_nil_iff, ← not_and_or]
          exact fun h => hname (Prod.ext h.1 h.2)
        rw [withoutName_cons hmore]
        rfl
      · rfl

end Restyle.Css
