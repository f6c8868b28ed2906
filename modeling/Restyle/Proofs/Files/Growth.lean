import Mathlib.Logic.Relation
import Restyle.Files.Access

/-!
# Disks that grow

A disk is a *tree* when every node stands in a directory (`IsTree`).  It *grows* into another when every
node stays what it is, only that one file, a log, may get longer at its end (`Grows`); trees grow into
trees.

`walk` follows a path all at once.  Here it is taken apart into steps, one for each component (`Moves`),
and `walk_eq_ok_iff` says that to walk is to take such steps as long as there are any.  A step meets
directories and symbolic links only, and a disk that grows keeps those.

* `Grows.locate`: a path that leads to a node still leads there when the disk has grown.
* `Leads.walk_append`: to go on from where a path leads is to start there.
-/

namespace Restyle.Disk

open Files

variable {d d' d'' : Disk} {log : Option Place}

/-! ### Nodes -/

@[simp] theorem get?_nil (d : Disk) : d.get? [] = some .dir := rfl

/-- Only the root is not among the nodes. -/
theorem get?_of_ne_nil {p : Place} (hp : p ≠ []) : d.get? p = d.nodes.lookup p := by
  simp [get?, hp]

theorem lookup_cons_of_ne {nodes : List (Place × Node)} {p q : Place} (h : q ≠ p) (n : Node) :
    ((p, n) :: nodes).lookup q = nodes.lookup q := by
  rw [List.lookup_cons, beq_eq_false_iff_ne.2 h]

/-- Replacing a node changes what is found at its place, and nowhere else. -/
theorem lookup_map_put {nodes : List (Place × Node)} {p q : Place} {n : Node} :
    (nodes.map fun (r, m) => if r == p then (r, n) else (r, m)).lookup q =
      if q = p then (nodes.lookup p).map fun _ => n else nodes.lookup q := by
  induction nodes with
  | nil => simp
  | cons e nodes ih =>
      obtain ⟨r, m⟩ := e
      change List.lookup q ((if r == p then (r, n) else (r, m)) :: _) = _
      by_cases hr : r = p
      · subst hr
        rw [if_pos BEq.rfl, List.lookup_cons_self]
        split
        · next hq => rw [hq, List.lookup_cons_self, Option.map_some]
        · next hq => rw [lookup_cons_of_ne hq, lookup_cons_of_ne hq, ih, if_neg hq]
      · rw [if_neg (by simpa using hr), lookup_cons_of_ne (Ne.symm hr)]
        by_cases hq : q = r
        · subst hq
          rw [List.lookup_cons_self, List.lookup_cons_self, if_neg hr]
        · rw [lookup_cons_of_ne hq, lookup_cons_of_ne hq, ih]

/-- **A node is where it was put**, and all others are where they were. -/
theorem get?_put {p : Place} (hp : p ≠ []) (d : Disk) (n : Node) (q : Place) :
    (d.put p n).get? q = if q = p then some n else d.get? q := by
  by_cases hq : q = []
  · subst hq
    simp [Ne.symm hp]
  · rw [get?_of_ne_nil hq, get?_of_ne_nil hq, put]
    split
    · next hsome =>
        obtain ⟨m, hm⟩ := Option.isSome_iff_exists.1 hsome
        rw [lookup_map_put, hm, Option.map_some]
    · split
      · next hqp => rw [hqp, List.lookup_cons_self]
      · next hqp => rw [lookup_cons_of_ne hqp]

/-- Every node stands in a directory. -/
def IsTree (d : Disk) : Prop :=
  ∀ dir name n, d.get? (dir ++ [name]) = some n → d.get? dir = some .dir

/-- The nodes are listed, so that the directory of each can be looked up. -/
theorem isTree_iff : d.IsTree ↔ ∀ e ∈ d.nodes, d.get? e.1.dropLast = some .dir := by
  constructor
  · rintro h ⟨p, n⟩ he
    rcases List.eq_nil_or_concat p with rfl | ⟨dir, name, rfl⟩
    · rfl
    · rw [List.concat_eq_append] at he ⊢
      have hsome : (d.nodes.lookup (dir ++ [name])).isSome :=
        List.lookup_isSome_iff.2 ⟨_, he, by simp⟩
      obtain ⟨m, hm⟩ := Option.isSome_iff_exists.1 hsome
      simpa using h dir name m (by rw [get?_of_ne_nil (by simp), hm])
  · intro h dir name n hn
    rw [get?_of_ne_nil (by simp)] at hn
    obtain ⟨before, after, hnodes, -⟩ := List.lookup_eq_some_iff.1 hn
    simpa using h (dir ++ [name], n) (by simp [hnodes])

instance : Decidable d.IsTree :=
  decidable_of_iff _ isTree_iff.symm

/-- There is nothing below what is no directory. -/
theorem IsTree.get?_below (h : d.IsTree) {dir : Place} (hd : d.get? dir ≠ some .dir) (name : Bytes) :
    d.get? (dir ++ [name]) = none := by
  cases hn : d.get? (dir ++ [name]) with
  | none => rfl
  | some n => exact absurd (h dir name n hn) hd

/-! ### Growing -/

/-- Data is added at the end of the log, if there is one, and nothing else changes. -/
def Appended (log : Option Place) (d d' : Disk) : Prop :=
  ∀ q, d'.get? q = d.get? q ∨
    log = some q ∧ ∃ old more, d.get? q = some (.file old) ∧ d'.get? q = some (.file (old ++ more))

/-- Every node of a disk is kept, and the log at most gets longer. -/
structure Grows (log : Option Place) (d d' : Disk) : Prop where
  kept : ∀ q n, d.get? q = some n → d'.get? q = some n ∨
    log = some q ∧ ∃ old more, n = .file old ∧ d'.get? q = some (.file (old ++ more))
  isTree : d.IsTree → d'.IsTree

theorem Appended.refl (log : Option Place) (d : Disk) : Appended log d d :=
  fun _ => .inl rfl

theorem Appended.trans (h : Appended log d d') (h' : Appended log d' d'') : Appended log d d'' := by
  intro q
  rcases h q with hq | ⟨hlog, old, more, ho, hm⟩ <;> rcases h' q with hq' | ⟨hlog', old', more', ho', hm'⟩
  · exact .inl (hq'.trans hq)
  · exact .inr ⟨hlog', old', more', hq ▸ ho', hm'⟩
  · exact .inr ⟨hlog, old, more, ho, hq'.trans hm⟩
  · obtain rfl : old' = old ++ more := by simpa [hm] using ho'.symm
    exact .inr ⟨hlog, old, more ++ more', ho, by rw [hm', List.append_assoc]⟩

/-- Writing to the end of a file appends to it. -/
theorem Appended.extend {p : Place} {data : Bytes} (h : d.extend p data = .ok d') :
    Appended (some p) d d' := by
  rw [Disk.extend] at h
  split at h
  · next old hold =>
      obtain rfl := Except.ok.inj h
      by_cases hp : p = []
      · subst hp
        simp at hold
      · intro q
        rw [get?_put hp]
        split
        · next hq => exact .inr ⟨by rw [hq], old, data, hq ▸ hold, rfl⟩
        · exact .inl rfl
  · cases h
  · obtain rfl := Except.ok.inj h
    exact .refl _ d

/-- A disk on which a log was appended to has grown. -/
theorem Appended.grows (h : Appended log d d') : Grows log d d' where
  kept q n hn := by
    rcases h q with hq | ⟨hlog, old, more, hold, hmore⟩
    · exact .inl (hq.trans hn)
    · exact .inr ⟨hlog, old, more, Option.some.inj (hn.symm.trans hold), hmore⟩
  isTree ht dir name n hn := by
    have hd : d.get? dir = some .dir := by
      rcases h (dir ++ [name]) with hq | ⟨-, old, -, hold, -⟩
      · exact ht dir name n (hq ▸ hn)
      · exact ht dir name _ hold
    rcases h dir with hq | ⟨-, old, -, hold, -⟩
    · rw [hq, hd]
    · rw [hd] at hold
      cases hold

namespace Grows

theorem refl (log : Option Place) (d : Disk) : Grows log d d :=
  (Appended.refl log d).grows

theorem trans (h : Grows log d d') (h' : Grows log d' d'') : Grows log d d'' where
  kept q n hn := by
    rcases h.kept q n hn with hq | ⟨hlog, old, more, rfl, hm⟩
    · exact h'.kept q n hq
    · rcases h'.kept q _ hm with hq' | ⟨-, old', more', ho', hm'⟩
      · exact .inr ⟨hlog, old, more, rfl, hq'⟩
      · cases ho'
        exact .inr ⟨hlog, old, more ++ more', rfl, by rw [hm', List.append_assoc]⟩
  isTree := h'.isTree ∘ h.isTree

/-- **A node more.**  A node at a free name of a directory is a growth, whatever it is. -/
theorem add {dir : Place} {name : Bytes} (hdir : d.get? dir = some .dir)
    (hfree : d.get? (dir ++ [name]) = none)
    (hrest : ∀ q, q ≠ dir ++ [name] → d'.get? q = d.get? q) : Grows log d d' where
  kept q n hn := by
    refine .inl ((hrest q ?_).trans hn)
    rintro rfl
    rw [hfree] at hn
    cases hn
  isTree ht dir' name' n hn := by
    have hd : d.get? dir' = some .dir := by
      by_cases heq : dir' ++ [name'] = dir ++ [name]
      · rw [(List.append_inj' heq rfl).1, hdir]
      · exact ht dir' name' n (hrest _ heq ▸ hn)
    refine (hrest dir' ?_).trans hd
    rintro rfl
    rw [hfree] at hd
    cases hd

/-- What is not the log stays as it is. -/
theorem get?_eq (h : Grows log d d') {q : Place} {n : Node} (hn : d.get? q = some n)
    (hq : log ≠ some q) : d'.get? q = some n :=
  (h.kept q n hn).resolve_right fun hlog => hq hlog.1

/-- Only a file can change. -/
theorem get?_eq_of_not_file (h : Grows log d d') {q : Place} {n : Node} (hn : d.get? q = some n)
    (hfile : ∀ data, n ≠ .file data) : d'.get? q = some n :=
  (h.kept q n hn).resolve_right fun ⟨_, _, _, heq, _⟩ => hfile _ heq

/-- Nothing goes away. -/
theorem exists_get? (h : Grows log d d') {q : Place} {n : Node} (hn : d.get? q = some n) :
    ∃ n', d'.get? q = some n' := by
  rcases h.kept q n hn with hq | ⟨-, old, more, -, hq⟩
  · exact ⟨_, hq⟩
  · exact ⟨_, hq⟩

/-- What is free has been free. -/
theorem get?_eq_none (h : Grows log d d') {q : Place} (hq : d'.get? q = none) : d.get? q = none := by
  cases hn : d.get? q with
  | none => rfl
  | some n =>
      obtain ⟨n', hn'⟩ := h.exists_get? hn
      rw [hq] at hn'
      cases hn'

end Grows

/-! ### Following paths, one component at a time -/

/-- How far a path has been followed: the links it may still go through, where it has led, and what is
left of it. -/
structure Cursor where
  links : Nat
  place : Place
  rest : List Bytes

/-- The component names an entry of a directory. -/
structure IsEntry (c : Bytes) : Prop where
  ne_nil : c ≠ []
  ne_here : c ≠ Path.here
  ne_above : c ≠ Path.above
  length_le : c.length ≤ maxName

/-- One component is followed. -/
inductive Moves (d : Disk) : Cursor → Cursor → Prop where
  | stay {l p c r} (hp : d.get? p = some .dir) (hc : c = [] ∨ c = Path.here) :
      Moves d ⟨l, p, c :: r⟩ ⟨l, p, r⟩
  | up {l p r} (hp : d.get? p = some .dir) : Moves d ⟨l, p, Path.above :: r⟩ ⟨l, p.dropLast, r⟩
  | down {l p c r n} (hp : d.get? p = some .dir) (hc : IsEntry c) (hn : d.get? (p ++ [c]) = some n)
      (hlink : ∀ target, n ≠ .link target) : Moves d ⟨l, p, c :: r⟩ ⟨l, p ++ [c], r⟩
  | through {l p c r target} (hp : d.get? p = some .dir) (hc : IsEntry c)
      (hn : d.get? (p ++ [c]) = some (.link target)) :
      Moves d ⟨l + 1, p, c :: r⟩
        ⟨l, if Path.isAbsolute target then [] else p, Path.parts target ++ r⟩

/-- Any number of components are followed. -/
abbrev Leads (d : Disk) : Cursor → Cursor → Prop :=
  Relation.ReflTransGen (Moves d)

/-- A path is followed as far as there is something. -/
inductive Ends (d : Disk) : Cursor → Spot → Prop where
  | taken {l p n} (hn : d.get? p = some n) : Ends d ⟨l, p, []⟩ (.taken p n)
  | free {l p c r} (hp : d.get? p = some .dir) (hc : IsEntry c) (hn : d.get? (p ++ [c]) = none)
      (hr : r.all (·.isEmpty) = true) : Ends d ⟨l, p, c :: r⟩ (.free p c !r.isEmpty)

/-- A name that is an entry is neither empty nor a way back, and not too long. -/
theorem isEntry_iff {c : Bytes} : IsEntry c ↔
    ¬ (c.isEmpty || c == Path.here) = true ∧ ¬ (c == Path.above) = true ∧ ¬ maxName < c.length := by
  constructor
  · rintro ⟨hnil, hhere, habove, hlen⟩
    simp [hnil, hhere, habove, hlen]
  · rintro ⟨hhere, habove, hlen⟩
    simp only [Bool.or_eq_true, List.isEmpty_iff, beq_iff_eq, not_or] at hhere habove
    exact ⟨hhere.1, hhere.2, habove, Nat.le_of_not_lt hlen⟩

/-- Whatever is left of the links, components are followed one after the other; with one link more, a link
leads to where one comes with what is left. -/
theorem exists_jump (d : Disk) (follow : Bool) (links : Nat) :
    ∃ jump, d.walk follow links = d.walkNames follow jump ∧ ∀ k, links = k + 1 → jump = d.walk follow k := by
  cases links with
  | zero => exact ⟨_, rfl, fun k hk => by cases hk⟩
  | succ links => exact ⟨_, rfl, fun k hk => by cases hk; rfl⟩

/-- A symbolic link at the very end is followed only by those who want to. -/
theorem Moves.walk_eq {s t : Cursor} (h : Moves d s t) {follow : Bool}
    (hf : follow = true ∨ 2 ≤ s.rest.length) :
    d.walk follow s.links s.place s.rest = d.walk follow t.links t.place t.rest := by
  obtain ⟨jump, hwalk, hjump⟩ := exists_jump d follow s.links
  rw [hwalk]
  cases h with
  | stay hp hc =>
      rw [hwalk, walkNames, hp]
      rcases hc with rfl | rfl <;> rfl
  | up hp =>
      rw [hwalk, walkNames, hp]
      rfl
  | down hp hc hn hlink =>
      obtain ⟨hhere, habove, hlen⟩ := isEntry_iff.1 hc
      rw [hwalk, walkNames, hp]
      simp only [hn, if_neg hhere, if_neg habove, if_neg hlen]
  | through hp hc hn =>
      obtain ⟨hhere, habove, hlen⟩ := isEntry_iff.1 hc
      rw [walkNames, hp]
      simp only [hn, if_neg hhere, if_neg habove, if_neg hlen]
      rw [if_neg, hjump _ rfl]
      rcases hf with rfl | hf
      · simp
      · intro hr
        simp_all

/-- A walk that ends has the spot where it ends. -/
theorem Ends.walk_eq {s : Cursor} {spot : Spot} (h : Ends d s spot) (follow : Bool) :
    d.walk follow s.links s.place s.rest = .ok spot := by
  obtain ⟨jump, hwalk, -⟩ := exists_jump d follow s.links
  rw [hwalk]
  cases h with
  | taken hn => rw [walkNames, hn]
  | free hp hc hn hr =>
      obtain ⟨hhere, habove, hlen⟩ := isEntry_iff.1 hc
      rw [walkNames, hp]
      simp only [hn, if_neg hhere, if_neg habove, if_neg hlen, if_pos hr]

/-- A path is moved along as long as one can, or it ends at a symbolic link that is not to be followed. -/
def Found (d : Disk) (follow : Bool) (s : Cursor) (spot : Spot) : Prop :=
  (∃ t, Leads d s t ∧ Ends d t spot) ∨ follow = false ∧ ∃ q target, spot = .taken q (.link target)

/-- A move does not change what is found. -/
theorem Moves.found {s t : Cursor} (h : Moves d s t) {follow : Bool} {spot : Spot}
    (ht : Found d follow t spot) : Found d follow s spot :=
  ht.imp_left fun ⟨u, hu, he⟩ => ⟨u, .head h hu, he⟩

theorem Ends.found {s : Cursor} {spot : Spot} (h : Ends d s spot) (follow : Bool) : Found d follow s spot :=
  .inl ⟨s, .refl, h⟩

/-- What is walked to by names is found by moves, links being followed by `jump`. -/
theorem found_of_walkNames {follow : Bool} {links : Nat} {jump : Place → List Bytes → Except Errno Spot}
    {spot : Spot} (hjump : ∀ place rest, jump place rest = .ok spot →
      ∃ k, links = k + 1 ∧ Found d follow ⟨k, place, rest⟩ spot)
    {place : Place} {rest : List Bytes} (h : d.walkNames follow jump place rest = .ok spot) :
    Found d follow ⟨links, place, rest⟩ spot := by
  fun_induction walkNames d follow jump place rest with
  | case1 place n hn =>
      cases h
      exact (Ends.taken hn).found follow
  | case4 place c rest hp hc ih => exact (Moves.stay hp (by simpa using hc)).found (ih h)
  | case5 place c rest hp _ hc ih =>
      obtain rfl := beq_iff_eq.1 hc
      exact (Moves.up hp).found (ih h)
  | case7 place c rest hp hhere habove hlen hn hr =>
      cases h
      exact (Ends.free hp (isEntry_iff.2 ⟨hhere, habove, hlen⟩) hn hr).found follow
  | case9 place c rest hp hhere habove hlen target hn hr =>
      cases h
      exact .inr ⟨by simp_all, _, _, rfl⟩
  | case10 place c rest hp hhere habove hlen target hn _ =>
      obtain ⟨k, rfl, hfound⟩ := hjump _ _ h
      exact (Moves.through hp (isEntry_iff.2 ⟨hhere, habove, hlen⟩) hn).found hfound
  | case11 place c rest hp hhere habove hlen n hlink hn ih =>
      exact (Moves.down hp (isEntry_iff.2 ⟨hhere, habove, hlen⟩) hn fun t ht => hlink t ht).found (ih h)
  | case2 | case3 | case6 | case8 | case12 => cases h

/-- **What is walked to is found** by moves and an end. -/
theorem found_of_walk {follow : Bool} {links : Nat} {place : Place} {rest : List Bytes} {spot : Spot}
    (h : d.walk follow links place rest = .ok spot) : Found d follow ⟨links, place, rest⟩ spot := by
  induction links generalizing place rest with
  | zero => exact found_of_walkNames (fun _ _ hjump => by cases hjump) h
  | succ links ih => exact found_of_walkNames (fun _ _ hjump => ⟨links, rfl, ih hjump⟩) h

/-- **Following a path is moving on as long as one can.** -/
theorem walk_eq_ok_iff {s : Cursor} {spot : Spot} :
    d.walk true s.links s.place s.rest = .ok spot ↔ ∃ t, Leads d s t ∧ Ends d t spot := by
  constructor
  · intro h
    exact (found_of_walk h).resolve_right fun hlink => by cases hlink.1
  · rintro ⟨t, ht, he⟩
    induction ht using Relation.ReflTransGen.head_induction_on with
    | refl => exact he.walk_eq true
    | head hm _ ih => exact (hm.walk_eq (.inl rfl)).trans ih

/-- Only a symbolic link at the end is not followed. -/
theorem walk_of_not_follow {links : Nat} {place : Place} {rest : List Bytes} {spot : Spot}
    (h : d.walk false links place rest = .ok spot) (hlink : ∀ q target, spot ≠ .taken q (.link target)) :
    d.walk true links place rest = .ok spot :=
  walk_eq_ok_iff.2 <| (found_of_walk h).resolve_right fun ⟨_, q, target, hspot⟩ => hlink q target hspot

/-- Where a path starts. -/
def origin? (d : Disk) (path : Bytes) : Option Place :=
  if Path.isAbsolute path then some [] else d.workDir

/-- A path is located by a walk from its origin, unless it is malformed. -/
theorem locate_eq_ok_iff_walk {path : Bytes} {follow : Bool} {spot : Spot} :
    d.locate follow path = .ok spot ↔ (path ≠ [] ∧ 0 ∉ path ∧ path.length ≤ maxPath) ∧
      ∃ p ∈ d.origin? path, d.walk follow maxLinks p (Path.parts path) = .ok spot := by
  rw [locate, origin?]
  by_cases hzero : 0 ∈ path
  · simp [hzero]
  · by_cases hne : path = []
    · simp [hne]
    · rcases Nat.lt_or_ge maxPath path.length with hlen | hlen
      · simp [hzero, hne, hlen, Nat.not_le.2 hlen]
      · cases Path.isAbsolute path with
        | true => simp [hzero, hne, hlen, Nat.not_lt.2 hlen]
        | false => cases d.workDir <;> simp [hzero, hne, hlen, Nat.not_lt.2 hlen]

/-- An absolute path is walked from the root. -/
theorem locate_eq_ok_iff {path : Bytes} (habs : Path.isAbsolute path = true) {follow : Bool}
    {spot : Spot} : d.locate follow path = .ok spot ↔
      (0 ∉ path ∧ path.length ≤ maxPath) ∧ d.walk follow maxLinks [] (Path.parts path) = .ok spot := by
  have hne : path ≠ [] := by
    rintro rfl
    cases habs
  simp [locate_eq_ok_iff_walk, origin?, habs, hne]

/-! ### Paths in disks that change -/

/-- Directories, symbolic links and devices stay as they are. -/
def KeepsTree (d d' : Disk) : Prop :=
  ∀ q n, d.get? q = some n → (∀ data, n ≠ .file data) → d'.get? q = some n

/-- Files stay files. -/
def KeepsFiles (d d' : Disk) : Prop :=
  ∀ q data, d.get? q = some (.file data) → ∃ data', d'.get? q = some (.file data')

/-- Moves start at directories. -/
theorem Moves.isDir {s t : Cursor} (h : Moves d s t) : d.get? s.place = some .dir := by
  cases h <;> assumption

theorem Leads.isDir {s t : Cursor} (h : Leads d s t) (ht : d.get? t.place = some .dir) :
    d.get? s.place = some .dir := by
  rcases Relation.ReflTransGen.cases_head h with rfl | ⟨_, hm, -⟩
  · exact ht
  · exact hm.isDir

/-- What is met on the way stays.  A file is met only at the end of it. -/
theorem Moves.kept (h : KeepsTree d d') {s t : Cursor} (hm : Moves d s t)
    (hfile : ∀ data, d.get? t.place = some (.file data) → ∃ data', d'.get? t.place = some (.file data')) :
    Moves d' s t := by
  cases hm with
  | stay hp hc => exact .stay (h _ _ hp (by simp)) hc
  | up hp => exact .up (h _ _ hp (by simp))
  | @down _ _ _ _ n hp hc hn hlink =>
      have hp' := h _ _ hp (by simp)
      cases n with
      | file data =>
          obtain ⟨data', hn'⟩ := hfile data hn
          exact .down hp' hc hn' (by simp)
      | link target => exact absurd rfl (hlink target)
      | dir | null | full => exact .down hp' hc (h _ _ hn (by simp)) hlink
  | through hp hc hn => exact .through (h _ _ hp (by simp)) hc (h _ _ hn (by simp))

/-- A way stays where directories, links and files are kept. -/
theorem Leads.kept (h : KeepsTree d d') (hfiles : KeepsFiles d d') {s t : Cursor} (hs : Leads d s t) :
    Leads d' s t :=
  Relation.ReflTransGen.mono (fun _ _ hm => hm.kept h (hfiles _)) _ _ hs

/-- The way to a directory meets no file. -/
theorem Leads.kept_of_dir (h : KeepsTree d d') {s t : Cursor} (hs : Leads d s t) (ht : d.get? t.place = some .dir) :
    Leads d' s t := by
  induction hs using Relation.ReflTransGen.head_induction_on with
  | refl => exact .refl
  | head hm hrest ih =>
      refine .head (hm.kept h fun data hdata => ?_) ih
      cases (Leads.isDir hrest ht).symm.trans hdata

theorem Grows.keepsTree (h : Grows log d d') : KeepsTree d d' :=
  fun _ _ => h.get?_eq_of_not_file

theorem Grows.keepsFiles (h : Grows log d d') : KeepsFiles d d' := by
  intro q data hdata
  rcases h.kept q _ hdata with hq | ⟨-, _, _, -, hq⟩
  · exact ⟨_, hq⟩
  · exact ⟨_, hq⟩

/-- A way stays when a disk grows. -/
theorem Grows.leads (h : Grows log d d') {s t : Cursor} (hs : Leads d s t) : Leads d' s t :=
  hs.kept h.keepsTree h.keepsFiles

/-- **A path that leads to a node leads there for ever.** -/
theorem Grows.locate (h : Grows log d d') {path : Bytes} (habs : Path.isAbsolute path = true)
    {q : Place} {n : Node} (hl : d.locate true path = .ok (.taken q n)) :
    ∃ n', d'.locate true path = .ok (.taken q n') ∧ d'.get? q = some n' := by
  obtain ⟨hpath, hw⟩ := (locate_eq_ok_iff habs).1 hl
  obtain ⟨t, ht, he⟩ := walk_eq_ok_iff (s := ⟨maxLinks, [], Path.parts path⟩).1 hw
  cases he with
  | taken hn =>
      obtain ⟨n', hn'⟩ := h.exists_get? hn
      exact ⟨n', (locate_eq_ok_iff habs).2 ⟨hpath, walk_eq_ok_iff.2 ⟨_, h.leads ht, .taken hn'⟩⟩, hn'⟩

/-- What is located is there. -/
theorem get?_of_locate {path : Bytes} (habs : Path.isAbsolute path = true) {q : Place} {n : Node}
    (h : d.locate true path = .ok (.taken q n)) : d.get? q = some n := by
  obtain ⟨n', hn', hget⟩ := (Grows.refl none d).locate habs h
  cases h.symm.trans hn'
  exact hget

/-- A path that does not lead to the log leads to the same thing later. -/
theorem Grows.locate_eq (h : Grows log d d') {path : Bytes} (habs : Path.isAbsolute path = true)
    {q : Place} {n : Node} (hl : d.locate true path = .ok (.taken q n)) (hq : log ≠ some q) :
    d'.locate true path = .ok (.taken q n) := by
  obtain ⟨n', hn', hget⟩ := h.locate habs hl
  rw [h.get?_eq (get?_of_locate habs hl) hq] at hget
  rwa [Option.some.inj hget]

/-- A path with more behind it. -/
def Cursor.append (s : Cursor) (more : List Bytes) : Cursor :=
  { s with rest := s.rest ++ more }

/-- A move can be made with more names to come. -/
theorem Moves.append {s t : Cursor} (h : Moves d s t) (more : List Bytes) :
    Moves d (s.append more) (t.append more) := by
  cases h with
  | stay hp hc => exact .stay hp hc
  | up hp => exact .up hp
  | down hp hc hn hlink => exact .down hp hc hn hlink
  | through hp hc hn =>
      rw [Cursor.append, Cursor.append, List.append_assoc]
      exact .through hp hc hn

theorem Leads.append {s t : Cursor} (h : Leads d s t) (more : List Bytes) :
    Leads d (s.append more) (t.append more) :=
  h.lift (·.append more) fun _ _ hm => hm.append more

/-- **To go on from where a path leads is to start there.** -/
theorem Leads.walk_append {s t : Cursor} (h : Leads d s t) {more : List Bytes} (hmore : more ≠ [])
    (follow : Bool) : d.walk follow s.links s.place (s.rest ++ more) =
      d.walk follow t.links t.place (t.rest ++ more) := by
  have hlong : 1 ≤ more.length := List.length_pos_iff.2 hmore
  induction h using Relation.ReflTransGen.head_induction_on with
  | refl => rfl
  | head hm _ ih =>
      rw [← ih]
      -- the component followed is not the last one
      refine (hm.append more).walk_eq (.inr ?_)
      cases hm <;> simp [Cursor.append] <;> omega

end Restyle.Disk
