import Mathlib.Data.List.Infix
import Restyle.Proofs.Css.Token

/-!
# Words

A *firm* text has none of the characters that part words: white space, quotes and `; : , ( ) { }`
stand in it only behind a backslash.  What follows a firm text begins, if anything follows, with such
a character or with a comment, and no recogniser that starts inside the text sees it
(`WordReader`), with one exception: a name before a parenthesis is the name of a function.
-/

namespace Restyle.Css

open Token

/-! ### Firm texts -/

/-- What may stand behind a word: the start of a comment, a quote, punctuation or white space. -/
def borders : List Char :=
  ['/', '"', '\'', ';', ':', ',', '(', ')', '{', '}', ' ', '\t', '\n', '\r', '\x0c']

/-- A character that stands in a word without a backslash before it. -/
def isPlain (c : Char) : Bool :=
  c == '/' || (c != '\\' && !borders.contains c)

/-- A character that a word may have behind a backslash. -/
def isEscapable (c : Char) : Bool :=
  c.toNat < 0x80 && !isSpace c

/-- A text made of characters of one class, and of escapes: a backslash and a character of another
class. -/
def spelled (plain escaped : Char → Bool) : List Char → Bool
  | [] => true
  | '\\' :: c :: s => escaped c && spelled plain escaped s
  | c :: s => plain c && spelled plain escaped s

/-- A character that is spelled is plain, or an escape. -/
theorem spelled_cases {plain escaped : Char → Bool} {c : Char} {s : List Char}
    (h : spelled plain escaped (c :: s) = true) :
    (plain c = true ∧ spelled plain escaped s = true) ∨
      ∃ d r, c = '\\' ∧ s = d :: r ∧ escaped d = true ∧ spelled plain escaped r = true := by
  unfold spelled at h
  split at h
  · next he => cases he
  · next d r he =>
      cases he
      rw [Bool.and_eq_true] at h
      exact .inr ⟨d, r, rfl, rfl, h⟩
  · next he =>
      cases he
      rw [Bool.and_eq_true] at h
      exact .inl h

theorem spelled_tail {plain escaped : Char → Bool} {c : Char} {s : List Char}
    (h : spelled plain escaped (c :: s) = true) (hc : c ≠ '\\') : spelled plain escaped s = true := by
  rcases spelled_cases h with ⟨-, hs⟩ | ⟨d, r, rfl, -⟩
  · exact hs
  · exact absurd rfl hc

/-- A character that is no backslash has to be plain. -/
theorem spelled_cons {plain escaped : Char → Bool} {c : Char} (hc : c ≠ '\\') (s : List Char) :
    spelled plain escaped (c :: s) = (plain c && spelled plain escaped s) := by
  rw [spelled]
  rintro d r he
  exact absurd he hc

/-- A text that may stand in a word. -/
abbrev firm (s : List Char) : Bool :=
  spelled isPlain isEscapable s

theorem ne_backslash_of_plain {c : Char} (h : isPlain c = true) : c ≠ '\\' := by
  rintro rfl
  cases h

/-- The text ends in an escape of hexadecimal digits, which takes a white space that follows. -/
def endsInHex (s : List Char) : Bool :=
  s.tails.any fun
    | '\\' :: digits => digits.all isHex
    | _ => false

/-- The end of a text decides how it ends. -/
theorem endsInHex_of_suffix {u v : List Char} (h : v <:+ u) (hu : endsInHex u = false) :
    endsInHex v = false := by
  unfold endsInHex at hu ⊢
  rw [List.any_eq_false] at hu ⊢
  exact fun w hw => hu w ((List.mem_tails w u).2 (((List.mem_tails w v).1 hw).trans h))

/-- `t` may stand behind the word `u`. -/
def Parts (u t : List Char) : Prop :=
  ∀ x ∈ t.head?, x ∈ borders ∧ (isSpace x = true → endsInHex u = false)

/-- What parts from a text parts from its end. -/
theorem Parts.of_suffix {u v t : List Char} (h : Parts u t) (hv : v <:+ u) : Parts v t :=
  fun x hx => ⟨(h x hx).1, fun hs => endsInHex_of_suffix hv ((h x hx).2 hs)⟩

/-- A character of a class that has no border in it does not stand there. -/
theorem Parts.not_of {u t : List Char} (h : Parts u t) {p : Char → Bool}
    (hp : borders.all (!p ·) = true) : ∀ x ∈ t.head?, p x = false := by
  intro x hx
  simpa using List.all_eq_true.1 hp x (h x hx).1

/-- No backslash can follow. -/
theorem Parts.ne_backslash {u t : List Char} {x : Char} (h : Parts u (x :: t)) : x ≠ '\\' := by
  rintro rfl
  exact absurd (h _ rfl).1 (by decide)

/-! ### Readers of words -/

/-- A reader that, on a word, leaves a word and does not see what stands behind it. -/
structure WordReader (read? : List Char → Option (List Char)) : Prop where
  suffix : ∀ {u r}, read? u = some r → r <:+ u
  rest : ∀ {u r}, firm u = true → read? u = some r → firm r = true
  behind : ∀ {u t}, firm u = true → Parts u t → read? (u ++ t) = (read? u).map (· ++ t)

namespace WordReader

variable {f g : List Char → Option (List Char)}

/-- Readers that agree are word readers alike. -/
theorem of_eq (h : ∀ s, f s = g s) (hg : WordReader g) : WordReader f :=
  funext h ▸ hg

/-- One reader after another. -/
theorem bind (hf : WordReader f) (hg : WordReader g) : WordReader fun s => (f s).bind g where
  suffix h := by
    obtain ⟨v, hv, hr⟩ := Option.bind_eq_some_iff.1 h
    exact (hg.suffix hr).trans (hf.suffix hv)
  rest hu h := by
    obtain ⟨v, hv, hr⟩ := Option.bind_eq_some_iff.1 h
    exact hg.rest (hf.rest hu hv) hr
  behind := by
    intro u t hu ht
    rw [hf.behind hu ht]
    cases hv : f u with
    | none => rfl
    | some v => exact hg.behind (hf.rest hu hv) (ht.of_suffix (hf.suffix hv))

/-- A reader, then one that accepts everything. -/
theorem map (hf : WordReader f) {h : List Char → List Char} (hh : WordReader fun s => some (h s)) :
    WordReader fun s => (f s).map h :=
  .of_eq (fun _ => Option.map_eq_bind) (hf.bind hh)

/-- The first reader that accepts. -/
theorem orElse (hf : WordReader f) (hg : WordReader g) : WordReader fun s => (f s).or (g s) where
  suffix h := by
    rcases Option.or_eq_some_iff.1 h with h | ⟨-, h⟩
    · exact hf.suffix h
    · exact hg.suffix h
  rest hu h := by
    rcases Option.or_eq_some_iff.1 h with h | ⟨-, h⟩
    · exact hf.rest hu h
    · exact hg.rest hu h
  behind := by
    intro u t hu ht
    rw [hf.behind hu ht, hg.behind hu ht]
    cases f u <;> rfl

/-- A reader that may find nothing to read. -/
theorem optional (hf : WordReader f) : WordReader fun s => some ((f s).getD s) where
  suffix := by
    rintro u r ⟨⟩
    cases h : f u with
    | none => exact List.suffix_rfl
    | some r => exact hf.suffix h
  rest := by
    rintro u r hu ⟨⟩
    cases h : f u with
    | none => exact hu
    | some r => exact hf.rest hu h
  behind := by
    intro u t hu ht
    rw [hf.behind hu ht]
    cases f u <;> rfl

/-- A given start that has no border in it. -/
theorem after {p : List Char} (hfree : p.all (!('\\' :: borders).contains ·) = true) :
    WordReader (after? p) := by
  have hp : ∀ a ∈ p, a ∉ '\\' :: borders := fun a ha => by
    simpa using List.all_eq_true.1 hfree a ha
  clear hfree
  refine ⟨fun h => ⟨p, (after?_eq_some_iff.1 h).symm⟩, ?_, ?_⟩
  · intro u r hu h
    rw [after?_eq_some_iff] at h
    subst h
    induction p with
    | nil => exact hu
    | cons a p ih =>
        rw [List.forall_mem_cons] at hp
        exact ih hp.2 (spelled_tail hu fun ha => hp.1 (by simp [ha]))
  · intro u t hu ht
    induction p generalizing u with
    | nil => rfl
    | cons a p ih =>
        rw [List.forall_mem_cons] at hp
        cases u with
        | nil =>
            cases t with
            | nil => rfl
            | cons x t =>
                have hx : a ≠ x := fun ha => hp.1 (List.mem_cons_of_mem _ (ha ▸ (ht x rfl).1))
                simp [after?, hx]
        | cons c s =>
            simp only [List.cons_append, after?]
            split
            · next ha =>
                have hs := spelled_tail hu fun hc => hp.1 (by simp [ha, hc])
                exact ih hp.2 hs (ht.of_suffix (List.suffix_cons c s))
            · rfl

end WordReader

/-! ### A class of characters at the start of a word -/

/-- What follows does not lead on if its first character is of another class. -/
theorem leading_append {p : Char → Bool} {t : List Char} (ht : ∀ x ∈ t.head?, p x = false)
    (n : Nat) (s : List Char) : leading p n (s ++ t) = leading p n s := by
  refine congrArg List.length ?_
  induction s generalizing n with
  | nil =>
      cases t with
      | nil => rfl
      | cons x t => cases n <;> simp [ht x rfl]
  | cons c s ih =>
      cases n with
      | zero => rfl
      | succ n => simp only [List.cons_append, List.take_succ_cons, List.takeWhile_cons, ih]

/-- No more is read than there is. -/
theorem leading_le (p : Char → Bool) (n : Nat) (s : List Char) : leading p n s ≤ s.length :=
  ((List.takeWhile_prefix p).trans (List.take_prefix n s)).length_le

theorem drop_leading_append (p : Char → Bool) (n : Nat) (s t : List Char) :
    (s ++ t).drop (leading p n s) = s.drop (leading p n s) ++ t :=
  List.drop_append_of_le_length (leading_le p n s)

/-- A text that is all of a class, where nothing is left behind it. -/
theorem all_of_drop_leading {p : Char → Bool} {n : Nat} {s : List Char}
    (h : s.drop (leading p n s) = []) : s.all p = true := by
  have hs := (List.takeWhile_prefix (l := s.take n) p).trans (List.take_prefix n s)
  rw [List.prefix_iff_eq_append] at hs
  unfold leading at h
  rw [h, List.append_nil] at hs
  rw [← hs, List.all_eq_true]
  exact fun d => List.mem_takeWhile_imp

/-- What follows is left if its first character is of another class. -/
theorem dropWhile_append_of_not {p : Char → Bool} {t : List Char} (ht : ∀ x ∈ t.head?, p x = false)
    (s : List Char) : (s ++ t).dropWhile p = s.dropWhile p ++ t := by
  cases t with
  | nil => simp
  | cons x t => exact dropWhile_append_cons (ht x rfl) s t

/-- What is left behind characters of a class is still spelled out. -/
theorem spelled_drop_leading {plain escaped p : Char → Bool} (hp : p '\\' = false) (n : Nat)
    {s : List Char} (hs : spelled plain escaped s = true) :
    spelled plain escaped (s.drop (leading p n s)) = true := by
  unfold leading
  induction s generalizing n with
  | nil => simpa using hs
  | cons c s ih =>
      cases n with
      | zero => exact hs
      | succ n =>
          rw [List.take_succ_cons, List.takeWhile_cons]
          split
          · next hc => exact ih n (spelled_tail hs (by rintro rfl; rw [hp] at hc; cases hc))
          · exact hs

/-- A firm text begins with no border but a slash. -/
theorem not_border_of_firm {c : Char} {s : List Char} (h : firm (c :: s) = true) (hc : c ≠ '/') :
    c ∉ borders := by
  rcases spelled_cases h with ⟨hp, -⟩ | ⟨d, r, rfl, -⟩
  · simp only [isPlain, Bool.or_eq_true, beq_iff_eq, hc, false_or, Bool.and_eq_true] at hp
    simpa using hp.2
  · decide

theorem isSpace_of_firm {c : Char} {s : List Char} (h : firm (c :: s) = true) :
    isSpace c = false := by
  rcases spelled_cases h with ⟨hc, -⟩ | ⟨d, r, rfl, -⟩
  · cases hs : isSpace c with
    | false => rfl
    | true =>
        rcases space_cases hs with rfl | rfl | rfl | rfl | rfl <;> exact absurd hc (by decide)
  · rfl

/-! ### Escapes -/

/-- What an escape leaves of the word behind the escaped character. -/
def escapeRest (c : Char) (s : List Char) : List Char :=
  if isHex c then s.drop (leading isHex 5 s) else s

/-- **An escape** in a word is read alike whatever follows the word. -/
theorem escape?_append {c : Char} {s t : List Char} (hc : isEscapable c = true)
    (hs : firm s = true) (ht : Parts ('\\' :: c :: s) t) :
    escape? ('\\' :: c :: (s ++ t)) = some (escapeRest c s ++ t) := by
  simp only [isEscapable, Bool.and_eq_true, decide_eq_true_eq, Bool.not_eq_true'] at hc
  obtain ⟨hlow, hspace⟩ := hc
  have hnewline : isNewline c = false := by
    simp only [isSpace, isNewline, Bool.or_eq_false_iff] at hspace ⊢
    simp [hspace]
  unfold escape? escapeRest
  simp only [hnewline, Bool.false_eq_true, if_false]
  split
  · next hx =>
      rw [leading_append (ht.not_of (by decide)), drop_leading_append]
      have hrest := spelled_drop_leading (p := isHex) (by decide) 5 hs
      cases hd : s.drop (leading isHex 5 s) with
      | cons d r =>
          rw [hd] at hrest
          simp [isSpace_of_firm hrest]
      | nil =>
          cases t with
          | nil => rfl
          | cons x t =>
              -- the escape is all of the word, so no white space may stand behind it
              have hends : endsInHex ('\\' :: c :: s) = true :=
                List.any_eq_true.2 ⟨_, (List.mem_tails _ _).2 List.suffix_rfl,
                  by simp [hx, all_of_drop_leading hd]⟩
              have hxs : isSpace x = false := by
                cases hxs : isSpace x with
                | false => rfl
                | true => rw [(ht x rfl).2 hxs] at hends; cases hends
              simp [hxs]
  · simp [codePointWidth, show c.toNat < 0xC0 by omega]

/-- What is left behind it is firm. -/
theorem firm_escapeRest (c : Char) {s : List Char} (hs : firm s = true) :
    firm (escapeRest c s) = true := by
  unfold escapeRest
  split
  · exact spelled_drop_leading (by decide) 5 hs
  · exact hs

theorem escape?_eq_none {c : Char} (h : c ≠ '\\') (s : List Char) : escape? (c :: s) = none := by
  unfold escape?
  split
  · next he => cases he; exact absurd rfl h
  · rfl

/-- An escape is read wherever one is written. -/
theorem escape?_of_firm {c : Char} {s : List Char} (hc : isEscapable c = true)
    (hs : firm s = true) : escape? ('\\' :: c :: s) = some (escapeRest c s) := by
  have h := escape?_append hc hs (t := []) (fun _ hx => by cases hx)
  rwa [List.append_nil, List.append_nil] at h

theorem wordReader_escape? : WordReader escape? where
  suffix h := (escape?_suffix h).trans (List.tail_suffix _)
  rest := by
    intro u r hu h
    cases u with
    | nil => cases h
    | cons c s =>
        rcases spelled_cases hu with ⟨hc, -⟩ | ⟨d, s, rfl, rfl, hd, hs⟩
        · rw [escape?_eq_none (ne_backslash_of_plain hc)] at h
          cases h
        · rw [escape?_of_firm hd hs] at h
          cases h
          exact firm_escapeRest d hs
  behind := by
    intro u t hu ht
    cases u with
    | nil =>
        cases t with
        | nil => rfl
        | cons x t => exact escape?_eq_none ht.ne_backslash t
    | cons c s =>
        rcases spelled_cases hu with ⟨hc, -⟩ | ⟨d, s, rfl, rfl, hd, hs⟩
        · have hne := ne_backslash_of_plain hc
          rw [List.cons_append, escape?_eq_none hne, escape?_eq_none hne]
          rfl
        · rw [escape?_of_firm hd hs]
          exact escape?_append hd hs ht

/-! ### Names -/

theorem nameRest_append (u t : List Char) : nameRest u.length (u ++ t) = nameRest 0 t := by
  induction u with
  | nil => rfl
  | cons c u ih => exact ih

/-- A part of a name belongs to it. -/
theorem nameRest_of_part {c : Char} (h : isNamePart c = true) (s : List Char) :
    nameRest 0 (c :: s) = nameRest 0 s := by
  simp only [nameRest, h, if_true]

theorem nameRest_of_escape {c : Char} {s t : List Char} (hc : isNamePart c = false)
    (h : escape? (c :: s) = some t) : nameRest 0 (c :: s) = nameRest 0 t := by
  obtain ⟨u, rfl⟩ := escape?_suffix h
  simp only [nameRest, hc, h]
  rw [List.length_append, Nat.add_sub_cancel]
  exact nameRest_append u t

/-- A name ends at anything else. -/
theorem nameRest_of_none {c : Char} {s : List Char} (hc : isNamePart c = false)
    (h : escape? (c :: s) = none) : nameRest 0 (c :: s) = c :: s := by
  simp [nameRest, hc, h]

/-- What parts from a text does not go on with its name. -/
theorem nameRest_of_parts {u t : List Char} (ht : Parts u t) : nameRest 0 t = t := by
  cases t with
  | nil => rfl
  | cons x t =>
      refine nameRest_of_none (ht.not_of (by decide) x rfl) (escape?_eq_none ?_ t)
      exact ht.ne_backslash

/-- What stands of a word behind a name is a word, and is what stands there before `t` too. -/
theorem nameRest_firm {u : List Char} (hu : firm u = true) :
    firm (nameRest 0 u) = true ∧ ∀ t, Parts u t → nameRest 0 (u ++ t) = nameRest 0 u ++ t := by
  induction hlen : u.length using Nat.strongRecOn generalizing u with
  | ind len ih =>
      cases u with
      | nil => exact ⟨rfl, fun t ht => nameRest_of_parts ht⟩
      | cons c s =>
          cases hc : isNamePart c with
          | true =>
              have hs := spelled_tail hu (by rintro rfl; cases hc)
              obtain ⟨hfirm, hbehind⟩ := ih s.length (by simp [← hlen]) hs rfl
              rw [nameRest_of_part hc]
              refine ⟨hfirm, fun t ht => ?_⟩
              rw [List.cons_append, nameRest_of_part hc]
              exact hbehind t (ht.of_suffix (List.suffix_cons c s))
          | false =>
              cases he : escape? (c :: s) with
              | none =>
                  rw [nameRest_of_none hc he]
                  refine ⟨hu, fun t ht => nameRest_of_none hc ?_⟩
                  exact (wordReader_escape?.behind hu ht).trans (by rw [he]; rfl)
              | some r =>
                  have hr := wordReader_escape?.rest hu he
                  have hsuffix := escape?_suffix he
                  obtain ⟨hfirm, hbehind⟩ := ih r.length
                    (by rw [← hlen]; exact Nat.lt_succ_of_le hsuffix.length_le) hr rfl
                  rw [nameRest_of_escape hc he]
                  refine ⟨hfirm, fun t ht => ?_⟩
                  have het := wordReader_escape?.behind hu ht
                  rw [he, List.cons_append] at het
                  rw [List.cons_append, nameRest_of_escape hc het]
                  exact hbehind t (ht.of_suffix (wordReader_escape?.suffix he))

theorem wordReader_nameRest : WordReader fun s => some (nameRest 0 s) where
  suffix := by rintro u r ⟨⟩; exact nameRest_suffix 0 u
  rest := by rintro u r hu ⟨⟩; exact (nameRest_firm hu).1
  behind hu ht := congrArg some ((nameRest_firm hu).2 _ ht)

theorem wordReader_namePart? {p : Char → Bool} (hborder : borders.all (!p ·) = true)
    (hback : p '\\' = false) : WordReader (namePart? p) where
  suffix h := (namePart?_suffix h).trans (List.tail_suffix _)
  rest := by
    intro u r hu h
    unfold namePart? at h
    split at h
    · next c s =>
        split at h
        · next hc => cases h; exact spelled_tail hu (by rintro rfl; rw [hback] at hc; cases hc)
        · exact wordReader_escape?.rest hu h
    · cases h
  behind := by
    intro u t hu ht
    cases u with
    | nil =>
        cases t with
        | nil => rfl
        | cons x t => simp [namePart?, ht.not_of hborder x rfl, escape?_eq_none ht.ne_backslash]
    | cons c s =>
        simp only [List.cons_append, namePart?]
        split
        · rfl
        · exact wordReader_escape?.behind hu ht

theorem after?_eq_none {p s : List Char} (h : ∀ t, s = p ++ t → False) : after? p s = none := by
  cases hs : after? p s with
  | none => rfl
  | some t => exact (h t (after?_eq_some_iff.1 hs)).elim

theorem wordReader_ident? : WordReader ident? := by
  have hminus := (WordReader.after (p := ['-']) (by decide)).optional
  have hstart := wordReader_namePart? (p := isNameStart) (by decide) (by decide)
  refine .of_eq (fun s => ?_) (hminus.bind (hstart.map wordReader_nameRest))
  unfold ident?
  split
  · rfl
  · next h => rw [after?_eq_none h]; rfl

theorem wordReader_hash? : WordReader hash? := by
  have hpart := wordReader_namePart? (p := isNamePart) (by decide) (by decide)
  refine .of_eq (fun s => ?_)
    ((WordReader.after (p := ['#']) (by decide)).bind (hpart.map wordReader_nameRest))
  unfold hash?
  split
  · rfl
  · next h => rw [after?_eq_none h]; rfl

theorem wordReader_customName? : WordReader customName? := by
  refine .of_eq (fun s => ?_)
    ((WordReader.after (p := ['-', '-']) (by decide)).map wordReader_nameRest)
  unfold customName?
  split
  · rfl
  · next h => rw [after?_eq_none h]; rfl

/-! ### Numbers -/

theorem wordReader_dropWhile {p : Char → Bool} (hborder : borders.all (!p ·) = true)
    (hback : p '\\' = false) : WordReader fun s => some (s.dropWhile p) where
  suffix := by rintro u r ⟨⟩; exact List.dropWhile_suffix p
  rest := by
    rintro u r hu ⟨⟩
    induction u with
    | nil => rfl
    | cons c s ih =>
        rw [List.dropWhile_cons]
        split
        · next hc => exact ih (spelled_tail hu (by rintro rfl; rw [hback] at hc; cases hc))
        · exact hu
  behind _ ht := congrArg some (dropWhile_append_of_not (ht.not_of hborder) _)

theorem wordReader_digits? : WordReader digits? where
  suffix h := (digits?_suffix h).trans (List.tail_suffix _)
  rest := by
    intro u r hu h
    unfold digits? at h
    split at h
    · next c s =>
        split at h
        · next hc =>
            have hs := spelled_tail hu (by rintro rfl; cases hc)
            exact (wordReader_dropWhile (by decide) (by decide)).rest hs h
        · cases h
    · cases h
  behind := by
    intro u t hu ht
    cases u with
    | nil =>
        cases t with
        | nil => rfl
        | cons x t => simp [digits?, ht.not_of (p := Char.isDigit) (by decide) x rfl]
    | cons c s =>
        simp only [List.cons_append, digits?]
        split
        · rw [dropWhile_append_of_not (ht.not_of (by decide))]; rfl
        · rfl

theorem wordReader_sign : WordReader fun s => some (sign s) := by
  refine .of_eq (fun s => ?_) ((WordReader.after (p := ['+']) (by decide)).orElse
    (.after (p := ['-']) (by decide))).optional
  unfold sign
  cases s with
  | nil => rfl
  | cons c t =>
      by_cases hp : c = '+'
      · subst hp; rfl
      · by_cases hm : c = '-'
        · subst hm; rfl
        · simp [after?, hp, hm, Ne.symm hp, Ne.symm hm]

theorem wordReader_fraction? : WordReader fraction? := by
  refine .of_eq (fun s => ?_) ((WordReader.after (p := ['.']) (by decide)).bind wordReader_digits?)
  unfold fraction?
  split
  · rfl
  · next h => rw [after?_eq_none h]; rfl

theorem wordReader_mantissa? : WordReader mantissa? := by
  refine .of_eq (fun s => ?_)
    ((wordReader_digits?.map wordReader_fraction?.optional).orElse wordReader_fraction?)
  unfold mantissa?
  split
  · next h => rw [h]; rfl
  · next h => rw [h]; rfl

theorem wordReader_exponent : WordReader fun s => some (exponent s) := by
  have hletter := (WordReader.after (p := ['e']) (by decide)).orElse (.after (p := ['E']) (by decide))
  refine .of_eq (fun s => ?_)
    (hletter.bind (wordReader_sign.bind wordReader_digits?)).optional
  unfold exponent
  cases s with
  | nil => rfl
  | cons c t =>
      by_cases hp : c = 'e'
      · subst hp; rfl
      · by_cases hm : c = 'E'
        · subst hm; rfl
        · simp [after?, hp, hm, Ne.symm hp, Ne.symm hm]

theorem wordReader_number? : WordReader number? :=
  .of_eq (fun _ => rfl) (wordReader_sign.bind (wordReader_mantissa?.map wordReader_exponent))

theorem wordReader_numeric? : WordReader numeric? := by
  have hunit := ((WordReader.after (p := ['%']) (by decide)).orElse wordReader_ident?).optional
  refine .of_eq (fun s => ?_) (wordReader_number?.map hunit)
  unfold numeric?
  refine congrArg (fun f => (number? s).map f) (funext fun t => ?_)
  split
  · rfl
  · next h => rw [after?_eq_none h]; rfl

/-! ### Ranges of code points -/

theorem wordReader_codePointRange? : WordReader codePointRange? where
  suffix := codePointRange?_suffix
  rest := by
    intro u r hu h
    unfold codePointRange? at h
    dsimp only at h
    have hdrop := spelled_drop_leading (p := isHex) (by decide) 6 hu
    split at h
    · next v hv =>
        rw [after?_eq_some_iff.1 hv] at hdrop
        split at h
        · cases h
        · cases h
          exact spelled_drop_leading (by decide) 6 (spelled_tail hdrop (by decide))
    · split at h
      · cases h
      · cases h
        exact spelled_drop_leading (by decide) _ hdrop
  behind := by
    intro u t hu ht
    have hhex := ht.not_of (p := isHex) (by decide)
    have hmark := ht.not_of (p := (· == '?')) (by decide)
    have hdrop := spelled_drop_leading (p := isHex) (by decide) 6 hu
    have hhyphen := (WordReader.after (p := ['-']) (by decide)).behind hdrop
      (ht.of_suffix (List.drop_suffix _ u))
    unfold codePointRange?
    dsimp only
    rw [leading_append hhex, drop_leading_append, hhyphen]
    cases after? ['-'] (u.drop (leading isHex 6 u)) with
    | some v =>
        simp only [Option.map_some]
        rw [leading_append hhex, drop_leading_append]
        split <;> rfl
    | none =>
        simp only [Option.map_none]
        rw [leading_append hmark, drop_leading_append]
        split <;> rfl

theorem wordReader_unicodeRange? : WordReader unicodeRange? := by
  have hletter := (WordReader.after (p := ['u', '+']) (by decide)).orElse
    (.after (p := ['U', '+']) (by decide))
  refine .of_eq (fun s => ?_) (hletter.bind wordReader_codePointRange?)
  unfold unicodeRange?
  split
  · next u s =>
      by_cases hl : u = 'u'
      · subst hl; rfl
      · by_cases hu : u = 'U'
        · subst hu; rfl
        · simp [after?, hl, hu, Ne.symm hl, Ne.symm hu]
  · next h =>
      rw [after?_eq_none (h _), after?_eq_none (h _)]
      rfl

end Restyle.Css
