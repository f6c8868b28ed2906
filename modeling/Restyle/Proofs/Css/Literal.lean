import Restyle.Proofs.Css.WordTokens
import Restyle.Proofs.Text.Utf8

/-!
# Strings, urls and comments in place

The lexer sees a text as its bytes, each shown as a character (`view`).  A character below 128 is
seen as itself; the others are seen as characters from 128 on, none of which ends anything.

What is written between quotes, between the parentheses of a url or between the marks of a comment is
read up to its own end, whatever follows: `stringRest_append`, `urlRest_plain`, `urlRest_quoted` and
`commentRest_append`.
-/

namespace Restyle.Css

open Token

/-! ### A text as the lexer sees it -/

/-- The bytes of a text, each as the character of the same number. -/
def view (s : List Char) : List Char :=
  (Utf8.encode s).map fun b => Char.ofNat b.toNat

/-- The tokens of a text are those of its view. -/
theorem tokens_encode (s : List Char) : tokens (Utf8.encode s) = lex (view s) := by
  rw [tokens, lex, view, List.length_map]

@[simp] theorem view_nil : view [] = [] :=
  rfl

/-- Texts are seen one after the other. -/
theorem view_append (s t : List Char) : view (s ++ t) = view s ++ view t := by
  simp [view, Utf8.encode]

/-- A character below 128 is seen as itself. -/
theorem view_cons_of_lt {c : Char} (h : c.toNat < 0x80) (s : List Char) :
    view (c :: s) = c :: view s := by
  have hbyte : (UInt8.ofNat c.toNat).toNat = c.toNat := Utf8.toNat_byte (by omega)
  have hc : Utf8.encodeChar c = [UInt8.ofNat c.toNat] := by simp [Utf8.encodeChar, h]
  simp [view, Utf8.encode, hc, hbyte]

/-- Any other character is seen as characters from 128 on. -/
theorem view_cons_of_le {c : Char} (h : 0x80 ≤ c.toNat) (s : List Char) :
    ∃ u, view (c :: s) = u ++ view s ∧ u ≠ [] ∧ ∀ x ∈ u, 0x80 ≤ x.toNat := by
  refine ⟨view [c], view_append [c] s, ?_, ?_⟩
  · simp [view, Utf8.encode, Utf8.encodeChar_ne_nil]
  · intro x hx
    obtain ⟨b, hb, rfl⟩ := List.mem_map.1 hx
    rw [Utf8.encode, List.flatMap_singleton] at hb
    rw [Utf8.toNat_ofNat (.inl (by have := b.toNat_lt; omega))]
    exact Utf8.le_of_mem_encodeChar h b hb

theorem ne_of_high {x a : Char} (hx : 0x80 ≤ x.toNat) (ha : a.toNat < 0x80) : x ≠ a := by
  rintro rfl
  omega

/-- Something is seen of any text. -/
theorem view_ne_nil {s : List Char} (h : s ≠ []) : view s ≠ [] := by
  obtain ⟨c, s, rfl⟩ := List.exists_cons_of_ne_nil h
  simp [view, Utf8.encode, Utf8.encodeChar_ne_nil]

/-- A low character is seen first if it stands first. -/
theorem head?_view {a : Char} (ha : a.toNat < 0x80) (s : List Char) :
    (view s).head? = some a ↔ s.head? = some a := by
  cases s with
  | nil => rfl
  | cons c s =>
      rcases Nat.lt_or_ge c.toNat 0x80 with hc | hc
      · rw [view_cons_of_lt hc]; rfl
      · obtain ⟨u, hu, hne, hhigh⟩ := view_cons_of_le hc s
        obtain ⟨x, u, rfl⟩ := List.exists_cons_of_ne_nil hne
        have hx := hhigh x List.mem_cons_self
        rw [hu]
        simp only [List.cons_append, List.head?_cons, Option.some.injEq]
        constructor <;> (rintro rfl; omega)

/-- Two characters below 128 that are seen side by side stand side by side. -/
theorem infix_of_infix_view {a b : Char} (ha : a.toNat < 0x80) (hb : b.toNat < 0x80) {s : List Char}
    (h : [a, b] <:+: view s) : [a, b] <:+: s := by
  induction s with
  | nil => simp at h
  | cons c s ih =>
      rcases Nat.lt_or_ge c.toNat 0x80 with hc | hc
      · rw [view_cons_of_lt hc, List.infix_cons_iff] at h
        rcases h with h | h
        · obtain ⟨v, hv⟩ := h
          obtain ⟨rfl, hs⟩ : a = c ∧ b :: v = view s := List.cons.inj hv
          have hhead : s.head? = some b := (head?_view hb s).1 (by rw [← hs]; rfl)
          obtain ⟨r, rfl⟩ := List.head?_eq_some_iff.1 hhead
          exact ⟨[], r, rfl⟩
        · exact List.infix_cons (ih h)
      · obtain ⟨u, hu, -, hhigh⟩ := view_cons_of_le hc s
        rw [hu] at h
        refine List.infix_cons (ih ?_)
        clear hu ih
        induction u with
        | nil => exact h
        | cons x u ihu =>
            rw [List.forall_mem_cons] at hhigh
            rw [List.cons_append, List.infix_cons_iff] at h
            rcases h with h | h
            · obtain ⟨v, hv⟩ := h
              obtain ⟨rfl, -⟩ := List.cons.inj hv
              omega
            · exact ihu h hhigh.2

/-- What is spelled in a text is spelled in what the lexer sees. -/
theorem spelled_view {plain escaped : Char → Bool} (hback : plain '\\' = false)
    (hhigh : ∀ x : Char, 0x80 ≤ x.toNat → plain x = true)
    (hescaped : ∀ c, escaped c = true → c.toNat < 0x80) {s : List Char}
    (hs : spelled plain escaped s = true) : spelled plain escaped (view s) = true := by
  have high : ∀ {u v : List Char}, (∀ x ∈ u, 0x80 ≤ x.toNat) → spelled plain escaped v = true →
      spelled plain escaped (u ++ v) = true := by
    intro u v hu hv
    induction u with
    | nil => exact hv
    | cons x u ih =>
        rw [List.forall_mem_cons] at hu
        have hx : x ≠ '\\' := by rintro rfl; exact absurd hu.1 (by decide)
        rw [List.cons_append, spelled_cons hx, hhigh x hu.1, ih hu.2]
        rfl
  induction hlen : s.length using Nat.strongRecOn generalizing s with
  | ind len ih =>
      cases s with
      | nil => rfl
      | cons c s =>
          rcases spelled_cases hs with ⟨hc, hr⟩ | ⟨d, r, rfl, rfl, hd, hr⟩
          · have hv := ih s.length (by simp [← hlen]) hr rfl
            rcases Nat.lt_or_ge c.toNat 0x80 with hlow | hlow
            · have hne : c ≠ '\\' := by rintro rfl; rw [hback] at hc; cases hc
              rw [view_cons_of_lt hlow, spelled_cons hne, hc, hv]
              rfl
            · obtain ⟨u, hu, -, hall⟩ := view_cons_of_le hlow s
              rw [hu]
              exact high hall hv
          · have hv := ih r.length (by simp only [← hlen, List.length_cons]; omega) hr rfl
            rw [view_cons_of_lt (by decide), view_cons_of_lt (hescaped d hd), spelled, hd, hv]
            rfl

/-! ### Strings -/

def isQuote (c : Char) : Bool :=
  c == '"' || c == '\''

/-- What holds of both quotes. -/
theorem forall_isQuote {P : Char → Prop} (hdouble : P '"') (hsingle : P '\'') {q : Char}
    (hq : isQuote q = true) : P q := by
  simp only [isQuote, Bool.or_eq_true, beq_iff_eq] at hq
  rcases hq with rfl | rfl
  · exact hdouble
  · exact hsingle

/-- A text that may stand between quotes `q`: a quote `q` only behind a backslash, and no line
break. -/
abbrev quotable (q : Char) (s : List Char) : Bool :=
  spelled (fun c => c != q && c != '\\' && !isNewline c) (fun c => c.toNat < 0x80 && !isNewline c) s

theorem stringRest_skip (q : Char) (u t : List Char) :
    stringRest q u.length (u ++ t) = stringRest q 0 t := by
  induction u with
  | nil => rfl
  | cons c u ih => exact ih

/-- An escape is part of a string. -/
theorem stringRest_of_escape {q : Char} {s t : List Char} (hq : '\\' ≠ q)
    (h : escape? ('\\' :: s) = some t) : stringRest q 0 ('\\' :: s) = stringRest q 0 t := by
  obtain ⟨u, rfl⟩ := escape?_suffix h
  have hquote : ('\\' == q) = false := by simpa using hq
  have hlen : (u ++ t).length - t.length = u.length := by simp
  simp only [stringRest, hquote, h, hlen]
  exact stringRest_skip q u t

theorem stringRest_of_plain {q c : Char} (hq : c ≠ q) (hback : c ≠ '\\')
    (hline : isNewline c = false) (s : List Char) :
    stringRest q 0 (c :: s) = stringRest q 0 s := by
  simp [stringRest, hq, hback, hline]

/-- What an escape leaves of a quoted text is a quoted text. -/
theorem escape?_quotable {q c : Char} {s : List Char} (hq : isQuote q = true)
    (hc : c.toNat < 0x80) (hline : isNewline c = false) (hs : quotable q s = true) (t : List Char) :
    ∃ r, escape? ('\\' :: c :: (s ++ q :: t)) = some (r ++ q :: t) ∧ r <:+ s ∧
      quotable q r = true := by
  have hhex : ∀ x ∈ (q :: t).head?, isHex x = false := by
    rintro x ⟨⟩
    exact forall_isQuote (P := (isHex · = false)) rfl rfl hq
  unfold escape?
  simp only [hline, Bool.false_eq_true, if_false]
  split
  · rw [leading_append hhex, drop_leading_append]
    have hrest := spelled_drop_leading (p := isHex) (by decide) 5 hs
    have hsuffix := List.drop_suffix (leading isHex 5 s) s
    cases hd : s.drop (leading isHex 5 s) with
    | nil =>
        have hspace : isSpace q = false := forall_isQuote (P := (isSpace · = false)) rfl rfl hq
        exact ⟨[], by simp [hspace], List.nil_suffix, rfl⟩
    | cons d r =>
        rw [hd] at hrest hsuffix
        simp only [List.cons_append]
        split
        · next hspace =>
            refine ⟨r, rfl, (List.suffix_cons d r).trans hsuffix, spelled_tail hrest ?_⟩
            rintro rfl
            cases hspace
        · exact ⟨d :: r, rfl, hsuffix, hrest⟩
  · exact ⟨s, by simp [codePointWidth, show c.toNat < 0xC0 by omega], List.suffix_rfl, hs⟩

/-- **A string ends at its own quote.** -/
theorem stringRest_append {q : Char} (hq : isQuote q = true) {u : List Char}
    (hu : quotable q u = true) (t : List Char) : stringRest q 0 (u ++ q :: t) = (true, t) := by
  have hback : '\\' ≠ q := by rintro rfl; cases hq
  induction hlen : u.length using Nat.strongRecOn generalizing u with
  | ind len ih =>
      cases u with
      | nil =>
          have hline : isNewline q = false := forall_isQuote (P := (isNewline · = false)) rfl rfl hq
          simp [stringRest, hline]
      | cons c s =>
          rcases spelled_cases hu with ⟨hc, hs⟩ | ⟨d, s, rfl, rfl, hd, hs⟩
          · simp only [Bool.and_eq_true, bne_iff_ne, ne_eq, Bool.not_eq_true'] at hc
            rw [List.cons_append, stringRest_of_plain hc.1.1 hc.1.2 hc.2]
            exact ih s.length (by simp [← hlen]) hs rfl
          · simp only [Bool.and_eq_true, decide_eq_true_eq, Bool.not_eq_true'] at hd
            obtain ⟨r, hr, hsuffix, hquoted⟩ := escape?_quotable hq hd.1 hd.2 hs t
            rw [List.cons_append, List.cons_append, stringRest_of_escape hback hr]
            refine ih r.length ?_ hquoted rfl
            have := hsuffix.length_le
            simp only [List.length_cons] at hlen
            omega

/-- What can stand in quotes still can as it is seen. -/
theorem quotable_view {q : Char} (hq : isQuote q = true) {s : List Char} (hs : quotable q s = true) :
    quotable q (view s) = true := by
  refine spelled_view (by simp) (fun x hx => ?_) (fun c hc => ?_) hs
  · have hne := ne_of_high hx (forall_isQuote (P := (·.toNat < 0x80)) (by decide) (by decide) hq)
    simp [isNewline, hne, ne_of_high (a := '\\') hx, ne_of_high (a := '\n') hx,
      ne_of_high (a := '\r') hx, ne_of_high (a := '\x0c') hx]
  · simp only [Bool.and_eq_true, decide_eq_true_eq] at hc
    exact hc.1

/-! ### Urls -/

/-- A character that may stand in a url without quotes. -/
def isUrlChar (c : Char) : Bool :=
  !isQuote c && !isBlank c && 0x20 < c.toNat && c.toNat != 0x7F &&
    !(['(', ')', '\\', '}'].contains c)

/-- A character of such a url, as it is seen, is none that the lexer stops at. -/
theorem urlChar_free {c : Char} (hc : isUrlChar c = true ∨ 0x80 ≤ c.toNat) :
    c ∉ ['"', '\'', ' ', '(', ')', '\\'] ∧ 0x20 < c.toNat ∧ c.toNat ≠ 0x7F := by
  rcases hc with hc | hc
  · simp only [isUrlChar, isQuote, Bool.and_eq_true, Bool.not_eq_true', decide_eq_true_eq,
      bne_iff_ne, ne_eq] at hc
    obtain ⟨⟨⟨⟨hquote, -⟩, hlow⟩, hdel⟩, hlist⟩ := hc
    have hspace : c ≠ ' ' := by rintro rfl; exact absurd hlow (by decide)
    refine ⟨?_, hlow, hdel⟩
    simp_all
  · refine ⟨fun h => ?_, by omega, by omega⟩
    simp only [List.mem_cons, List.not_mem_nil, or_false] at h
    rcases h with rfl | rfl | rfl | rfl | rfl | rfl <;> exact absurd hc (by decide)

theorem isSpace_of_lt {c : Char} (h : 0x20 < c.toNat) : isSpace c = false := by
  cases hs : isSpace c with
  | false => rfl
  | true =>
      rcases space_cases hs with rfl | rfl | rfl | rfl | rfl <;> exact absurd h (by decide)

/-- A character of a url is passed. -/
theorem unquotedUrl_of_urlChar {c : Char} (hc : isUrlChar c = true ∨ 0x80 ≤ c.toNat)
    (s : List Char) : unquotedUrl 0 (c :: s) = unquotedUrl 0 s := by
  obtain ⟨hlist, hlow, hdel⟩ := urlChar_free hc
  simp only [List.mem_cons, List.not_mem_nil, or_false, not_or] at hlist
  have hcontrol : ¬ c.toNat ≤ 0x1F := by omega
  simp [unquotedUrl, hlist, hdel, hcontrol]

/-- What holds of all characters of a text and of all high ones holds of all that is seen. -/
theorem forall_mem_view {P : Char → Prop} {w : List Char} (hw : ∀ c ∈ w, P c)
    (hhigh : ∀ x : Char, 0x80 ≤ x.toNat → P x) : ∀ x ∈ view w, P x := by
  induction w with
  | nil => exact List.forall_mem_nil _
  | cons c w ih =>
      rw [List.forall_mem_cons] at hw
      rcases Nat.lt_or_ge c.toNat 0x80 with hc | hc
      · rw [view_cons_of_lt hc, List.forall_mem_cons]
        exact ⟨hw.1, ih hw.2⟩
      · obtain ⟨u, hu, -, hall⟩ := view_cons_of_le hc w
        rw [hu, List.forall_mem_append]
        exact ⟨fun x hx => hhigh x (hall x hx), ih hw.2⟩

/-- A url without quotes goes up to its parenthesis. -/
theorem unquotedUrl_append {u : List Char} (hu : ∀ c ∈ u, isUrlChar c = true ∨ 0x80 ≤ c.toNat)
    (t : List Char) : unquotedUrl 0 (u ++ ')' :: t) = (true, ')' :: t) := by
  induction u with
  | nil => rfl
  | cons c u ih =>
      rw [List.forall_mem_cons] at hu
      rw [List.cons_append, unquotedUrl_of_urlChar hu.1]
      exact ih hu.2

/-- **A url without quotes ends at its parenthesis.** -/
theorem urlRest_plain {w : List Char} (hne : w ≠ []) (hw : ∀ c ∈ w, isUrlChar c = true)
    (t : List Char) : urlRest (view w ++ ')' :: t) = t := by
  have hall : ∀ x ∈ view w, isUrlChar x = true ∨ 0x80 ≤ x.toNat :=
    forall_mem_view (fun c hc => .inl (hw c hc)) fun x hx => .inr hx
  have hurl := unquotedUrl_append hall t
  obtain ⟨c, v, hv⟩ : ∃ c v, view w = c :: v := List.exists_cons_of_ne_nil (view_ne_nil hne)
  have hc := hall c (by rw [hv]; exact List.mem_cons_self)
  obtain ⟨hlist, hlow, -⟩ := urlChar_free hc
  simp only [List.mem_cons, List.not_mem_nil, or_false, not_or] at hlist
  have hspace := isSpace_of_lt hlow
  have hquote : (c == '"' || c == '\'') = false := by simp [hlist]
  rw [hv, List.cons_append] at hurl ⊢
  unfold urlRest
  rw [List.dropWhile_cons_of_neg (by simp [hspace])]
  simp only [hquote, hurl]
  rfl

/-- **A url between quotes ends at its parenthesis.** -/
theorem urlRest_quoted {q : Char} (hq : isQuote q = true) {w : List Char} (hw : quotable q w = true)
    (t : List Char) : urlRest (q :: (view w ++ q :: ')' :: t)) = t := by
  have hspace : isSpace q = false := forall_isQuote (P := (isSpace · = false)) rfl rfl hq
  unfold urlRest
  rw [List.dropWhile_cons_of_neg (by simp [hspace])]
  simp only
  rw [if_pos (by simpa [isQuote] using hq), stringRest_append hq (quotable_view hq hw)]
  rfl

/-! ### Comments -/

/-- **A comment ends at its first closing mark.** -/
theorem commentRest_append {u : List Char} (hu : ¬ ['*', '/'] <:+: u) (t : List Char) :
    commentRest (u ++ '*' :: '/' :: t) = t := by
  induction u with
  | nil => rfl
  | cons c u ih =>
      rw [List.infix_cons_iff, not_or] at hu
      rw [List.cons_append]
      unfold commentRest
      split
      · next h => cases h
      · next v h =>
          -- the mark does not start at `c`, nor does it with the last character of the comment
          obtain ⟨rfl, hrest⟩ : c = '*' ∧ u ++ '*' :: '/' :: t = '/' :: v := by simpa using h
          cases u with
          | nil => simp at hrest
          | cons d u =>
              obtain ⟨rfl, -⟩ : d = '/' ∧ u ++ '*' :: '/' :: t = v := by simpa using hrest
              exact absurd ⟨u, rfl⟩ hu.1
      · next h => cases h; exact ih hu.2

end Restyle.Css
