import Mathlib.Logic.Basic
import Restyle.Css.Outline
import Restyle.Proofs.Css.Lexeme

/-!
# The grammar machine

What a run of the machine depends on, and what it does not.

* `forget_run?`: white space, comments and their counts do not matter to the rest of the state.
* `Settled`: between two items nothing is open inside them, unless the body is unknown.  Every step
  keeps this (`settled_step`).
* `step_semicolon_brace`: a semicolon before a closing brace changes nothing.
* `step_ident_opening`: a name before what opens changes nothing, except where a declaration begins.
-/

namespace Restyle.Css.Outline

namespace State

/-- The state that the machine reaches over `ts`, unless it meets an error. -/
def run? (s : State) : List Token → Option State
  | [] => some s
  | t :: ts => (s.step t).toOption.bind (run? · ts)

/-- A run makes one step and goes on from there. -/
theorem run?_cons_eq_some {s s' : State} {t : Token} {ts : List Token} :
    s.run? (t :: ts) = some s' ↔ ∃ s₁, s.step t = .ok s₁ ∧ s₁.run? ts = some s' := by
  rw [run?]
  cases s.step t with
  | error stats => exact ⟨nofun, nofun⟩
  | ok s₁ => simp [Except.toOption]

/-- Tokens can be read in two goes. -/
theorem run?_append (s : State) (ts us : List Token) :
    s.run? (ts ++ us) = (s.run? ts).bind (·.run? us) := by
  induction ts generalizing s with
  | nil => rfl
  | cons t ts ih =>
      rw [List.cons_append, run?, run?]
      cases (s.step t).toOption with
      | none => rfl
      | some s₁ => exact ih s₁

/-- A run that comes to its end is finished there. -/
theorem runTokens_of_run? {s s' : State} {ts : List Token} (h : s.run? ts = some s') :
    runTokens (.ok s) ts = s'.finish := by
  induction ts generalizing s with
  | nil => cases h; rfl
  | cons t ts ih =>
      obtain ⟨s₁, h₁, h⟩ := run?_cons_eq_some.1 h
      rw [runTokens, h₁]
      exact ih h

/-! ### Counts that the machine does not look at -/

/-- The state without the counts of bytes and comments. -/
def forget (s : State) : State :=
  { s with stats := { s.stats with bytes := 0, comments := 0 } }

@[simp] theorem forget_open (s : State) : s.forget.open_ = s.open_ :=
  rfl

@[simp] theorem forget_level (s : State) : s.forget.level = s.level :=
  rfl

@[simp] theorem forget_place (s : State) : s.forget.place = s.place :=
  rfl

/-- A token inside is read alike whatever has been counted. -/
theorem forget_inside (s : State) (t : Token) (p : Place) :
    (s.inside t p).toOption.map forget = (s.forget.inside t p).toOption := by
  unfold inside
  by_cases hl : s.level = 0
  all_goals
    simp only [forget_level, hl, if_true, if_false]
    split <;> rfl

theorem forget_select (s : State) (t : Token) :
    (s.select t).toOption.map forget = (s.forget.select t).toOption := by
  unfold select
  by_cases hopen : t = .leftBrace ∧ s.level = 0
  · simp only [forget_level, hopen, and_self, if_true]
    rfl
  · simp only [forget_level, hopen, if_false]
    exact forget_inside s t .selector

theorem forget_property (s : State) (t : Token) :
    (s.property t).toOption.map forget = (s.forget.property t).toOption := by
  cases t <;> rfl

theorem forget_begin (s : State) {t : Token} (ht : t ≠ .comment) :
    (s.begin t).toOption.map forget = (s.forget.begin t).toOption := by
  unfold begin
  by_cases hl : s.level = 0
  all_goals
    simp only [forget_open, forget_level, hl, if_true, if_false]
    repeat' split
  all_goals
    first | rfl | exact absurd rfl ht | exact forget_select s _ | exact forget_property s _

theorem forget_declare (s : State) {t : Token} (ht : t ≠ .comment) (colon : Bool) :
    (s.declare t colon).toOption.map forget = (s.forget.declare t colon).toOption := by
  unfold declare
  by_cases hl : s.level = 0
  all_goals
    simp only [forget_level, hl, if_true, if_false]
  · cases colon <;> split <;>
      first | rfl | exact forget_begin s.declared ht | exact forget_inside s _ _
  · exact forget_inside s t _

/-- **What the machine does does not depend on the counts of bytes and comments.** -/
theorem forget_step (s : State) {t : Token} (ht : isRead t = true) :
    (s.step t).toOption.map forget = (s.forget.step t).toOption := by
  simp only [isRead, Bool.and_eq_true, bne_iff_ne, ne_eq] at ht
  unfold step
  simp only [forget_open, forget_place, ht.1, ht.2, if_false, false_and]
  cases s.place with
  | start => exact forget_begin s ht.2
  | starred => exact forget_property s t
  | atRule body =>
      by_cases hl : s.level = 0
      · simp only [forget_level, hl, if_true]
        split <;> first | rfl | exact forget_begin s.atRule ht.2 | exact forget_inside s _ _
      · simp only [forget_level, hl, if_false]
        exact forget_inside s t _
  | selector => exact forget_select s t
  | named => exact forget_declare s ht.2 _
  | valued colon => exact forget_declare s ht.2 colon
  | customNamed =>
      by_cases hc : t = .colon
      · rw [if_pos hc, if_pos hc]
        rfl
      · rw [if_neg hc, if_neg hc]
        rfl
  | customValued =>
      by_cases hl : s.level = 0
      · simp only [forget_level, hl, if_true]
        split <;> first | rfl | exact forget_begin s.declared ht.2 | exact forget_inside s _ _
      · simp only [forget_level, hl, if_false]
        exact forget_inside s t _

/-- White space and comments leave no trace but a count. -/
theorem forget_step_of_not_read (s : State) {t : Token} (ht : isRead t = false) :
    ∃ s', s.step t = .ok s' ∧ s'.forget = s.forget := by
  have ht : t = .blank ∨ t = .comment := by
    simpa [isRead, Classical.or_iff_not_imp_left] using ht
  rcases ht with rfl | rfl
  · exact ⟨s, rfl, rfl⟩
  · unfold step
    by_cases htop : s.open_ = [] ∧ s.place = .start
    · refine ⟨{ s with stats.comments := s.stats.comments + 1 }, ?_, rfl⟩
      simp [htop, begin]
    · exact ⟨s, by simp [htop], rfl⟩

/-- **A run does not depend on comments and white space.** -/
theorem forget_run? (s : State) (ts : List Token) :
    (s.run? ts).map forget = s.forget.run? (ts.filter isRead) := by
  induction ts generalizing s with
  | nil => rfl
  | cons t ts ih =>
      cases ht : isRead t with
      | true =>
          rw [List.filter_cons_of_pos ht, run?, run?, ← forget_step s ht]
          cases (s.step t).toOption with
          | none => rfl
          | some s₁ => exact ih s₁
      | false =>
          obtain ⟨s₁, hs, hforget⟩ := forget_step_of_not_read s ht
          rw [List.filter_cons_of_neg (by simp [ht]), run?, hs, ← hforget]
          exact ih s₁

/-- The other counts are the same in the end. -/
theorem finish_forget (s : State) :
    s.forget.finish.rulesets = s.finish.rulesets ∧ s.forget.finish.atRules = s.finish.atRules ∧
      s.forget.finish.declarations = s.finish.declarations := by
  obtain ⟨stats, open_, level, place⟩ := s
  cases place with
  | valued colon => cases colon <;> exact ⟨rfl, rfl, rfl⟩
  | _ => exact ⟨rfl, rfl, rfl⟩

/-! ### Between two items -/

/-- Between two items nothing is open inside them; only a body that the grammar does not know keeps
the level for itself. -/
def Settled (s : State) : Prop :=
  s.place = .start → s.level = 0 ∨ s.open_.head? = some .unknown

/-- Only at a start there is something to settle. -/
theorem settled_of_ne {s : State} (h : s.place ≠ .start) : s.Settled :=
  fun hp => absurd hp h

/-- Where a token inside leads to. -/
theorem place_of_inside {s s' : State} {t : Token} {p : Place} (h : s.inside t p = .ok s') :
    s'.place = p := by
  unfold inside at h
  repeat' split at h
  all_goals cases h
  all_goals rfl

theorem settled_inside {s s' : State} {t : Token} {p : Place} (h : s.inside t p = .ok s')
    (hp : p ≠ .start) : s'.Settled :=
  settled_of_ne (place_of_inside h ▸ hp)

/-- A selector leaves everything settled. -/
theorem settled_select {s s' : State} {t : Token} (h : s.select t = .ok s') : s'.Settled := by
  unfold select at h
  split at h
  · next hopen =>
      cases h
      exact fun _ => .inl hopen.2
  · exact settled_inside h nofun

/-- The first token of a declaration leads into it. -/
theorem place_of_property {s s' : State} {t : Token} (h : s.property t = .ok s') :
    s'.place ≠ .start ∧ s'.place ≠ .starred := by
  cases t <;> cases h <;> exact ⟨nofun, nofun⟩

/-- A beginning leaves everything settled. -/
theorem settled_begin {s s' : State} {t : Token} (hs : s.Settled) (hp : s.place = .start)
    (h : s.begin t = .ok s') : s'.Settled := by
  obtain ⟨stats, open_, level, place⟩ := s
  subst hp
  unfold begin at h
  repeat' split at h
  all_goals
    first | exact settled_select h | exact settled_of_ne (place_of_property h).1 | cases h
  all_goals simp_all [Settled, State.at]

/-- A value leaves everything settled. -/
theorem settled_declare {s s' : State} {t : Token} {colon : Bool} (h : s.declare t colon = .ok s') :
    s'.Settled := by
  unfold declare at h
  split at h
  · next hl =>
      have hdeclared : s.declared.Settled := fun _ => .inl hl
      split at h
      · cases h
        exact fun _ => .inl hl
      · split at h <;> cases h
        exact hdeclared
      · split at h
        · exact settled_begin hdeclared rfl h
        · cases h
      · exact settled_inside h nofun
  · exact settled_inside h nofun

/-- **One step** keeps a state settled. -/
theorem settled_step {s s' : State} {t : Token} (hs : s.Settled) (h : s.step t = .ok s') :
    s'.Settled := by
  unfold step at h
  split at h
  · cases h
    exact hs
  split at h
  · cases h
    exact hs
  -- a place other than the start is settled; so only what ends an item is of interest
  cases hp : s.place with
  | start =>
      rw [hp] at h
      exact settled_begin hs hp h
  | starred =>
      rw [hp] at h
      exact settled_of_ne (place_of_property h).1
  | atRule body =>
      simp only [hp] at h
      split at h
      · next hl =>
          have hended : s.atRule.Settled := fun _ => .inl hl
          split at h
          · cases h
            exact fun _ => .inl hl
          · cases h
            exact hended
          · exact settled_begin hended rfl h
          · exact settled_inside h nofun
      · exact settled_inside h nofun
  | selector =>
      rw [hp] at h
      exact settled_select h
  | named =>
      rw [hp] at h
      exact settled_declare h
  | valued colon =>
      rw [hp] at h
      exact settled_declare h
  | customNamed =>
      simp only [hp] at h
      split at h <;> cases h
      exact settled_of_ne nofun
  | customValued =>
      simp only [hp] at h
      split at h
      · next hl =>
          have hended : s.declared.Settled := fun _ => .inl hl
          split at h
          · cases h
            exact hended
          · exact settled_begin hended rfl h
          · exact settled_inside h nofun
      · exact settled_inside h nofun

/-- **Any run** keeps a state settled. -/
theorem settled_run? {s s' : State} {ts : List Token} (hs : s.Settled) (h : s.run? ts = some s') :
    s'.Settled := by
  induction ts generalizing s with
  | nil =>
      cases h
      exact hs
  | cons t ts ih =>
      obtain ⟨s₁, h₁, h⟩ := run?_cons_eq_some.1 h
      exact ih (settled_step hs h₁) h

/-- **A semicolon before a closing brace changes nothing**: the brace ends the item too. -/
theorem step_semicolon_brace {s s₁ s₂ : State} (hs : s.Settled) (h₁ : s.step .semicolon = .ok s₁)
    (h₂ : s₁.step .rightBrace = .ok s₂) : s.step .rightBrace = .ok s₂ := by
  obtain ⟨stats, open_, level, place⟩ := s
  cases place with
  | start =>
      match open_ with
      | [] | .rules :: _ =>
          -- the semicolon begins a selector, and nothing in it is left to be closed
          obtain rfl : level = 0 := by simpa [Settled] using hs
          cases h₁
          cases h₂
      | .declarations :: _ | .unknown :: _ =>
          cases h₁
          exact h₂
  | starred => cases h₁
  | customNamed => cases h₁
  | selector =>
      cases h₁
      exact h₂
  | named =>
      by_cases hl : level = 0
      · subst hl
        cases h₁
      · cases (if_neg hl).symm.trans h₁
        exact (if_neg hl).trans ((if_neg hl).symm.trans h₂)
  | valued colon =>
      by_cases hl : level = 0
      · subst hl
        cases colon <;> cases h₁
        exact h₂
      · cases (if_neg hl).symm.trans h₁
        exact h₂
  | _ =>
      by_cases hl : level = 0
      · subst hl
        cases h₁
        exact h₂
      · cases (if_neg hl).symm.trans h₁
        exact h₂

/-! ### Where a declaration begins -/

/-- A declaration may begin here, or has begun with an asterisk. -/
def Fresh (s : State) : Prop :=
  s.place = .starred ∨ (s.place = .start ∧ s.open_.head? = some .declarations)

/-- Only a start, or a star behind one, is fresh. -/
theorem not_fresh_of_ne {s : State} (h : s.place ≠ .start ∧ s.place ≠ .starred) : ¬ s.Fresh :=
  fun hf => hf.elim h.2 fun hf => h.1 hf.1

theorem not_fresh_inside {s s' : State} {t : Token} {p : Place} (h : s.inside t p = .ok s')
    (hp : p ≠ .start ∧ p ≠ .starred) : ¬ s'.Fresh :=
  not_fresh_of_ne (place_of_inside h ▸ hp)

/-- An inner token goes on with a selector. -/
theorem select_of_inner {t : Token} (ht : isInner t = true) (s : State) :
    s.select t = s.inside t .selector :=
  if_neg fun h => by simp [h.1, isInner] at ht

/-- An inner token goes on with a value. -/
theorem declare_of_inner {t : Token} (ht : isInner t = true) (s : State) (colon : Bool) :
    s.declare t colon = s.inside t (.valued colon) := by
  unfold declare
  split
  · split <;> first | rfl | cases ht
  · rfl

/-- A beginning that is still fresh has read a star. -/
theorem fresh_of_begin {s s' : State} {t : Token} (ht : isInner t = true) (h : s.begin t = .ok s')
    (hp : s.place = .start) (hfresh : s'.Fresh) : t = .delim '*' ∧ s.Fresh := by
  unfold begin at h
  rw [select_of_inner ht] at h
  repeat' split at h
  all_goals
    first
      | exact absurd ht (by decide)
      | exact absurd hfresh (not_fresh_inside h ⟨nofun, nofun⟩)
      | exact absurd hfresh (not_fresh_of_ne (place_of_property h))
      | cases h
  all_goals simp_all [Fresh, State.at]

/-- Of the tokens within an item, only an asterisk leads to where a declaration may begin, and only
from there. -/
theorem fresh_of_step {s s' : State} {t : Token} (ht : isInner t = true) (h : s.step t = .ok s')
    (hfresh : s'.Fresh) : t = .delim '*' ∧ s.Fresh := by
  have hitem : ∀ {p : Place}, s.inside t p = .ok s' → p ≠ .start ∧ p ≠ .starred → False :=
    fun h hp => not_fresh_inside h hp hfresh
  have hread : t ≠ .blank ∧ t ≠ .comment := by
    constructor <;> (rintro rfl; cases ht)
  unfold step at h
  rw [if_neg hread.1, if_neg fun hc => hread.2 hc.1] at h
  cases hp : s.place with
  | start =>
      rw [hp] at h
      exact fresh_of_begin ht h hp hfresh
  | starred =>
      rw [hp] at h
      exact absurd hfresh (not_fresh_of_ne (place_of_property h))
  | selector =>
      simp only [hp, select_of_inner ht] at h
      exact (hitem h ⟨nofun, nofun⟩).elim
  | named =>
      simp only [hp, declare_of_inner ht] at h
      exact (hitem h ⟨nofun, nofun⟩).elim
  | valued colon =>
      simp only [hp, declare_of_inner ht] at h
      exact (hitem h ⟨nofun, nofun⟩).elim
  | customNamed =>
      simp only [hp] at h
      split at h <;> cases h
      simp [Fresh, State.at] at hfresh
  | _ =>
      simp only [hp] at h
      repeat' split at h
      all_goals first | exact (hitem h ⟨nofun, nofun⟩).elim | cases ht

/-- **A run of inner tokens** that ends fresh has read nothing but stars. -/
theorem fresh_of_run? {s s' : State} {ts : List Token} (hts : ∀ t ∈ ts, isInner t = true)
    (h : s.run? ts = some s') (hfresh : s'.Fresh) : (∀ t ∈ ts, t = .delim '*') ∧ s.Fresh := by
  induction ts generalizing s with
  | nil =>
      cases h
      exact ⟨List.forall_mem_nil _, hfresh⟩
  | cons t ts ih =>
      rw [List.forall_mem_cons] at hts
      obtain ⟨s₁, h₁, h⟩ := run?_cons_eq_some.1 h
      obtain ⟨hstars, hs₁⟩ := ih hts.2 h
      obtain ⟨ht, hs⟩ := fresh_of_step hts.1 h₁ hs₁
      exact ⟨List.forall_mem_cons.2 ⟨ht, hstars⟩, hs⟩

/-- No declaration begins with what opens. -/
theorem not_fresh_of_opening {s s' : State} (h : s.step .opening = .ok s') : ¬ s.Fresh := by
  obtain ⟨stats, open_, level, place⟩ := s
  rintro (hp | ⟨hp, hopen⟩)
  · cases hp
    cases h
  · cases hp
    obtain ⟨rest, rfl⟩ := List.head?_eq_some_iff.1 hopen
    cases h

/-- **A name before what opens changes nothing**, except where a declaration begins. -/
theorem step_ident_opening {s s' : State} (hs : ¬ s.Fresh) (h : s.step .ident = .ok s') :
    s'.step .opening = s.step .opening := by
  obtain ⟨stats, open_, level, place⟩ := s
  cases place with
  | start =>
      match open_ with
      | [] | .rules :: _ | .unknown :: _ =>
          cases h
          rfl
      | .declarations :: _ => exact absurd (.inr ⟨rfl, rfl⟩) hs
  | starred => exact absurd (.inl rfl) hs
  | customNamed => cases h
  | selector =>
      cases h
      rfl
  | _ =>
      by_cases hl : level = 0
      · subst hl
        cases h
        rfl
      · cases (if_neg hl).symm.trans h
        rfl

end State

end Restyle.Css.Outline
