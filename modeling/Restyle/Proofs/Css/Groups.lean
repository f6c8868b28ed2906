import Restyle.Css.Combine
import Restyle.Proofs.Text.Blank

/-!
# Groups of blocks

Blocks are given as a list of keys with their texts, in the order in which they are met.

* `collect gs es` adds the blocks `es` to the groups `gs`, one after another.
* `grouped es` says what comes of it, starting from nothing: one group for each key, in the order in
  which the keys are first met, with the texts of its blocks that are not empty, each on a line of
  its own (`collect_nil`).

`collect_collect`: to add the groups of some blocks is to add the blocks themselves.  So it does not
matter that the blocks inside another are grouped on their own first.
-/

namespace Restyle.Css

/-! ### Joined lines -/

@[simp] theorem joinLines_nil_left (b : List Char) : joinLines [] b = b := by
  simp [joinLines]

@[simp] theorem joinLines_nil_right (a : List Char) : joinLines a [] = a := by
  simp [joinLines]

/-- Two texts are joined by a line end. -/
theorem joinLines_of_ne_nil {a b : List Char} (ha : a ≠ []) (hb : b ≠ []) :
    joinLines a b = a ++ '\n' :: b := by
  simp [joinLines, ha, hb]

theorem joinLines_assoc (a b c : List Char) :
    joinLines (joinLines a b) c = joinLines a (joinLines b c) := by
  by_cases ha : a = []
  · rw [ha, joinLines_nil_left, joinLines_nil_left]
  by_cases hb : b = []
  · rw [hb, joinLines_nil_left, joinLines_nil_right]
  by_cases hc : c = []
  · rw [hc, joinLines_nil_right, joinLines_nil_right]
  · rw [joinLines_of_ne_nil ha hb, joinLines_of_ne_nil hb hc, joinLines_of_ne_nil (by simp) hc,
      joinLines_of_ne_nil ha (by simp), List.append_assoc, List.cons_append]

/-- The texts that are not empty, each on a line of its own. -/
def joined (texts : List (List Char)) : List Char :=
  ['\n'].intercalate (texts.filter (· ≠ []))

/-- Texts are joined to nothing if all of them are empty. -/
theorem joined_eq_nil_iff {texts : List (List Char)} :
    joined texts = [] ↔ texts.filter (· ≠ []) = [] := by
  constructor
  · intro h
    cases hf : texts.filter (· ≠ []) with
    | nil => rfl
    | cons a as =>
        have ha : a ≠ [] := by
          have : a ∈ texts.filter (· ≠ []) := by rw [hf]; exact List.mem_cons_self
          simpa using (List.mem_filter.1 this).2
        rw [joined, hf] at h
        cases as with
        | nil => rw [List.intercalate_singleton] at h; exact absurd h ha
        | cons b as =>
            rw [List.intercalate_cons_cons] at h
            simp [ha] at h
  · intro h
    rw [joined, h, List.intercalate_nil]

/-- Texts are joined one after the other. -/
theorem joined_cons (a : List Char) (texts : List (List Char)) :
    joined (a :: texts) = joinLines a (joined texts) := by
  by_cases ha : a = []
  · subst ha
    rw [joinLines_nil_left, joined, joined, List.filter_cons_of_neg (by simp)]
  rw [joined, List.filter_cons_of_pos (by simpa using ha)]
  by_cases hj : joined texts = []
  · rw [hj, joinLines_nil_right, joined_eq_nil_iff.1 hj, List.intercalate_singleton]
  · rw [List.intercalate_cons_of_ne_nil (mt joined_eq_nil_iff.2 hj), joinLines_of_ne_nil ha hj,
      List.append_assoc]
    rfl

/-! ### Adding to a group -/

theorem addToGroup_cons_self (k c a : List Char) (gs : List Group) :
    addToGroup k a (⟨k, c⟩ :: gs) = ⟨k, joinLines c a⟩ :: gs := by
  simp [addToGroup]

/-- A group with another key is passed. -/
theorem addToGroup_cons_of_ne {g : Group} {k : List Char} (h : g.key ≠ k) (a : List Char)
    (gs : List Group) : addToGroup k a (g :: gs) = g :: addToGroup k a gs := by
  simp [addToGroup, h]

/-- Two texts of one group are one text. -/
theorem addToGroup_addToGroup (k a b : List Char) (gs : List Group) :
    addToGroup k b (addToGroup k a gs) = addToGroup k (joinLines a b) gs := by
  induction gs with
  | nil => exact addToGroup_cons_self k a b []
  | cons g gs ih =>
      by_cases hg : g.key = k
      · obtain ⟨_, c⟩ := g
        subst hg
        rw [addToGroup_cons_self, addToGroup_cons_self, addToGroup_cons_self, joinLines_assoc]
      · rw [addToGroup_cons_of_ne hg, addToGroup_cons_of_ne hg, addToGroup_cons_of_ne hg, ih]

/-- A group that is there already may take its text before another group does. -/
theorem addToGroup_comm {k k' : List Char} (hk : k ≠ k') {gs : List Group}
    (hm : k ∈ gs.map Group.key) (a b : List Char) :
    addToGroup k a (addToGroup k' b gs) = addToGroup k' b (addToGroup k a gs) := by
  induction gs with
  | nil => cases hm
  | cons g gs ih =>
      obtain ⟨x, c⟩ := g
      by_cases hx : x = k
      · subst hx
        rw [addToGroup_cons_of_ne hk, addToGroup_cons_self, addToGroup_cons_self,
          addToGroup_cons_of_ne hk]
      · have hm' : k ∈ gs.map Group.key := (List.mem_cons.1 hm).resolve_left (Ne.symm hx)
        by_cases hx' : x = k'
        · subst hx'
          rw [addToGroup_cons_self, addToGroup_cons_of_ne hx, addToGroup_cons_of_ne hx,
            addToGroup_cons_self]
        · rw [addToGroup_cons_of_ne hx', addToGroup_cons_of_ne hx, addToGroup_cons_of_ne hx,
            addToGroup_cons_of_ne hx', ih hm']

/-- A key is added at the end, unless it is there. -/
theorem keys_addToGroup (k a : List Char) (gs : List Group) :
    (addToGroup k a gs).map Group.key =
      if k ∈ gs.map Group.key then gs.map Group.key else gs.map Group.key ++ [k] := by
  induction gs with
  | nil => rfl
  | cons g gs ih =>
      by_cases hg : g.key = k
      · simp [addToGroup, hg]
      · rw [addToGroup_cons_of_ne hg, List.map_cons, ih, List.map_cons]
        simp only [List.mem_cons, Ne.symm hg, false_or]
        split <;> rfl

theorem mem_keys_addToGroup (k a : List Char) (gs : List Group) :
    k ∈ (addToGroup k a gs).map Group.key := by
  rw [keys_addToGroup]
  split
  · assumption
  · simp

/-- No key is there twice. -/
theorem nodup_keys_addToGroup {gs : List Group} (h : (gs.map Group.key).Nodup)
    (k a : List Char) : ((addToGroup k a gs).map Group.key).Nodup := by
  rw [keys_addToGroup]
  split
  · exact h
  · next hk =>
      rw [List.nodup_append]
      refine ⟨h, by simp, ?_⟩
      rintro x hx y hy rfl
      rw [List.mem_singleton.1 hy] at hx
      exact hk hx

/-! ### Adding many blocks -/

/-- Adds blocks to groups, one after another. -/
def collect (gs es : List Group) : List Group :=
  es.foldl (fun gs g => addToGroup g.key g.content gs) gs

theorem collect_cons (gs : List Group) (e : Group) (es : List Group) :
    collect gs (e :: es) = collect (addToGroup e.key e.content gs) es := rfl

/-- Groups are collected one after the other. -/
theorem collect_append (gs es fs : List Group) :
    collect gs (es ++ fs) = collect (collect gs es) fs :=
  List.foldl_append

/-- What goes into a group that is there can go there first. -/
theorem addToGroup_collect {k : List Char} {gs es : List Group} (hg : k ∈ gs.map Group.key)
    (he : k ∉ es.map Group.key) (a : List Char) :
    addToGroup k a (collect gs es) = collect (addToGroup k a gs) es := by
  induction es generalizing gs with
  | nil => rfl
  | cons e es ih =>
      rw [List.map_cons, List.mem_cons, not_or] at he
      have hm : k ∈ (addToGroup e.key e.content gs).map Group.key := by
        rw [keys_addToGroup]
        split
        · exact hg
        · exact List.mem_append_left _ hg
      rw [collect_cons, collect_cons, ih hm he.2, addToGroup_comm he.1 hg]

/-- **Collecting what was grouped before** is the same as collecting one after the other. -/
theorem collect_addToGroup {es : List Group} (h : (es.map Group.key).Nodup) (gs : List Group)
    (k a : List Char) :
    collect gs (addToGroup k a es) = addToGroup k a (collect gs es) := by
  induction es generalizing gs with
  | nil => rfl
  | cons e es ih =>
      rw [List.map_cons, List.nodup_cons] at h
      by_cases hk : e.key = k
      · obtain ⟨_, c⟩ := e
        subst hk
        rw [addToGroup_cons_self, collect_cons, collect_cons, ← addToGroup_addToGroup,
          addToGroup_collect (mem_keys_addToGroup _ _ _) h.1]
      · rw [addToGroup_cons_of_ne hk, collect_cons, collect_cons, ih h.2]

/-- **Groups add up like their blocks.** -/
theorem collect_collect (gs es : List Group) : collect gs (collect [] es) = collect gs es := by
  suffices H : ∀ hs : List Group, (hs.map Group.key).Nodup →
      collect gs (collect hs es) = collect (collect gs hs) es from H [] List.nodup_nil
  induction es with
  | nil => exact fun _ _ => rfl
  | cons e es ih =>
      intro hs hn
      rw [collect_cons, ih _ (nodup_keys_addToGroup hn _ _), collect_addToGroup hn, ← collect_cons]

/-! ### The groups of some blocks -/

/-- What the blocks of one key hold. -/
def contentOf (es : List Group) (k : List Char) : List Char :=
  joined ((es.filter (·.key = k)).map Group.content)

/-- One group for each key, in the order in which the keys are first met. -/
def grouped (es : List Group) : List Group :=
  (es.map Group.key).eraseDups.map fun k => ⟨k, contentOf es k⟩

theorem contentOf_cons_self (k c : List Char) (es : List Group) :
    contentOf (⟨k, c⟩ :: es) k = joinLines c (contentOf es k) := by
  rw [contentOf, List.filter_cons_of_pos (by simp), List.map_cons, joined_cons]
  rfl

/-- Other keys have no part in the content of one. -/
theorem contentOf_cons_of_ne {e : Group} {k : List Char} (h : e.key ≠ k) (es : List Group) :
    contentOf (e :: es) k = contentOf es k := by
  rw [contentOf, List.filter_cons_of_neg (by simpa using h)]
  rfl

/-- Blocks of other keys can be left out. -/
theorem contentOf_filter_ne {k k' : List Char} (h : k ≠ k') (es : List Group) :
    contentOf (es.filter (·.key ≠ k')) k = contentOf es k := by
  rw [contentOf, List.filter_filter, contentOf]
  congr 2
  refine List.filter_congr fun e _ => ?_
  by_cases he : e.key = k
  · simp [he, h]
  · simp [he]

/-- The first group takes the blocks of its key, and the others take the rest. -/
theorem collect_cons_left (k c : List Char) (gs es : List Group) :
    collect (⟨k, c⟩ :: gs) es =
      ⟨k, joinLines c (contentOf es k)⟩ :: collect gs (es.filter (·.key ≠ k)) := by
  induction es generalizing c gs with
  | nil => exact congrArg (fun c => Group.mk k c :: gs) (joinLines_nil_right c).symm
  | cons e es ih =>
      by_cases hk : e.key = k
      · obtain ⟨_, d⟩ := e
        subst hk
        rw [collect_cons, addToGroup_cons_self, ih, contentOf_cons_self, joinLines_assoc,
          List.filter_cons_of_neg (by simp)]
      · rw [collect_cons, addToGroup_cons_of_ne (Ne.symm hk), ih, contentOf_cons_of_ne hk,
          List.filter_cons_of_pos (by simpa using hk), collect_cons]

/-- **Adding blocks to nothing groups them.** -/
theorem collect_nil (es : List Group) : collect [] es = grouped es := by
  match es with
  | [] => rfl
  | ⟨k, c⟩ :: es =>
      have hkeys : (es.map Group.key).filter (fun x => ! x == k) =
          (es.filter (·.key ≠ k)).map Group.key := by
        rw [List.filter_map]
        congr 2
        funext e
        by_cases he : e.key = k <;> simp [he]
      rw [collect_cons, addToGroup, collect_cons_left, collect_nil (es.filter (·.key ≠ k)), grouped,
        grouped, List.map_cons, List.eraseDups_cons, hkeys, List.map_cons, contentOf_cons_self]
      congr 1
      refine List.map_congr_left fun x hx => ?_
      have hx : x ≠ k := by
        obtain ⟨e, he, rfl⟩ := List.mem_map.1 (List.mem_eraseDups.1 hx)
        simpa using (List.mem_filter.1 he).2
      rw [contentOf_filter_ne hx, contentOf_cons_of_ne (Ne.symm hx)]
termination_by es.length
decreasing_by exact Nat.lt_succ_of_le (List.length_filter_le _ _)

/-- Collected groups have different keys. -/
theorem nodup_keys_collect {gs : List Group} (h : (gs.map Group.key).Nodup) (es : List Group) :
    ((collect gs es).map Group.key).Nodup := by
  induction es generalizing gs with
  | nil => exact h
  | cons e es ih => exact ih (nodup_keys_addToGroup h e.key e.content)

/-- A new key begins a group at the end. -/
theorem addToGroup_of_not_mem {k : List Char} {gs : List Group} (h : k ∉ gs.map Group.key)
    (a : List Char) : addToGroup k a gs = gs ++ [⟨k, a⟩] := by
  induction gs with
  | nil => rfl
  | cons g gs ih =>
      rw [List.map_cons, List.mem_cons, not_or] at h
      rw [addToGroup_cons_of_ne (Ne.symm h.1), ih h.2]
      rfl

/-- Blocks with keys of their own are groups already. -/
theorem collect_of_nodup {gs es : List Group} (h : ((gs ++ es).map Group.key).Nodup) :
    collect gs es = gs ++ es := by
  induction es generalizing gs with
  | nil => exact (List.append_nil gs).symm
  | cons e es ih =>
      have hk : e.key ∉ gs.map Group.key := fun hm => by
        rw [List.map_append, List.nodup_append] at h
        exact h.2.2 e.key hm e.key List.mem_cons_self rfl
      rw [List.append_cons] at h ⊢
      rw [collect_cons, addToGroup_of_not_mem hk, ih h]

/-! ### Counting signs -/

/-- What stands in the text of a group: its key, its braces and its content. -/
theorem Group.count_write {c : Char} (hc : isBlank c = false) (g : Group) :
    g.write.count c = ('@' :: g.key).count c + ['{'].count c + g.content.count c + ['}'].count c := by
  have hn : ('\n' == c) = false := by
    rw [beq_eq_false_iff_ne]
    rintro rfl
    cases hc
  simp only [Group.write, List.count_append, List.count_cons, List.count_nil, hn, Bool.false_eq_true,
    if_false]
  omega

/-- Joining adds line ends only. -/
theorem count_joinLines {c : Char} (hc : isBlank c = false) (a b : List Char) :
    (joinLines a b).count c = a.count c + b.count c := by
  have hn : ('\n' == c) = false := by
    rw [beq_eq_false_iff_ne]
    rintro rfl
    cases hc
  rw [joinLines]
  split
  · exact List.count_append
  · rw [List.count_append, List.count_cons, hn]
    rfl

/-- A text that goes to a group brings its own characters; a new group brings its key too. -/
theorem count_addToGroup {c : Char} (hc : isBlank c = false) (k a : List Char) (gs : List Group) :
    ((addToGroup k a gs).flatMap Group.write).count c = (gs.flatMap Group.write).count c +
      if k ∈ gs.map Group.key then a.count c else (Group.write ⟨k, a⟩).count c := by
  induction gs with
  | nil => simp [addToGroup]
  | cons g gs ih =>
      by_cases hg : g.key = k
      · obtain ⟨_, d⟩ := g
        subst hg
        rw [addToGroup_cons_self, if_pos (by simp)]
        simp only [List.flatMap_cons, List.count_append, Group.count_write hc, count_joinLines hc]
        omega
      · rw [addToGroup_cons_of_ne hg, List.flatMap_cons, List.count_append, ih, List.map_cons,
          List.flatMap_cons, List.count_append]
        simp only [List.mem_cons, Ne.symm hg, false_or]
        omega

/-- **Grouping saves a sign for every key that is met again.**  So the blocks of which it saves none
are groups already. -/
theorem collect_count (gs es : List Group) :
    ((collect gs es).flatMap Group.write).count '@' ≤
        (gs.flatMap Group.write).count '@' + (es.flatMap Group.write).count '@' ∧
      (((collect gs es).flatMap Group.write).count '@' =
        (gs.flatMap Group.write).count '@' + (es.flatMap Group.write).count '@' →
        collect gs es = gs ++ es) := by
  induction es generalizing gs with
  | nil => exact ⟨Nat.le_refl _, fun _ => (List.append_nil gs).symm⟩
  | cons e es ih =>
      have hadd := count_addToGroup (c := '@') rfl e.key e.content gs
      have hlt : e.content.count '@' < e.write.count '@' := by
        rw [Group.count_write rfl, List.count_cons_self]
        omega
      rw [collect_cons, List.flatMap_cons, List.count_append]
      obtain ⟨hle, heq⟩ := ih (addToGroup e.key e.content gs)
      by_cases hk : e.key ∈ gs.map Group.key
      · rw [if_pos hk] at hadd
        exact ⟨by omega, fun h => by omega⟩
      · rw [if_neg hk] at hadd
        change _ = _ + e.write.count '@' at hadd
        refine ⟨by omega, fun h => ?_⟩
        rw [heq (by omega), addToGroup_of_not_mem hk, List.append_assoc]
        rfl

end Restyle.Css
