import Restyle.Proofs.Job.Inside

/-!
# What a source is processed as

A source may lead on behind an archive, so it is looked up from its end: if nothing is found at a path, the
last name is dropped and the path above is tried, up to the root.  These are the *rounds* of the search
(`rounds`); each has less to look at than the one before, so there is a last one.  For a cleaned source
they go through all paths above it (`rounds_eq_ancestors`).

To process a source is to find out what is to be done with it, its *task*, and then to do it
(`process_eq_findTask`).  Which task it is depends on the longest path of the source at which there is
something (`Longest`), and on what is there (`Selects`).

* `process_longest`: the task that is found is the one of the longest path that exists; if there is none
  for it, nothing is done but to report a failure.
-/

namespace Restyle

open Files

/-- An empty path leads nowhere. -/
theorem Disk.stat_nil (d : Disk) : ∃ e, d.stat [] = .error e :=
  ⟨_, rfl⟩

namespace Job

/-! ### Rounds -/

/-- A path up to its last slash, which stays. -/
def upper (path : Bytes) : Bytes :=
  (path.reverse.dropWhile (· != Path.slash)).reverse

/-- What is above a path is not longer. -/
theorem length_upper_le (path : Bytes) : (upper path).length ≤ path.length := by
  have h := (List.dropWhile_suffix (l := path.reverse) (· != Path.slash)).length_le
  rw [List.length_reverse] at h
  rwa [upper, List.length_reverse]

theorem upper_concat_of_ne {b : UInt8} (hb : b ≠ Path.slash) (path : Bytes) :
    upper (path ++ [b]) = upper path := by
  simp [upper, hb]

theorem dropEnding_slash (path : Bytes) : (path ++ [Path.slash]).dropEnding [Path.slash] = path := by
  simp [Bytes.dropEnding]

theorem dropEnding_slash_of_ne {b : UInt8} (hb : b ≠ Path.slash) (path : Bytes) :
    (path ++ [b]).dropEnding [Path.slash] = path ++ [b] := by
  simp [Bytes.dropEnding, List.isSuffixOf_iff_suffix, Ne.symm hb]

/-- Each round has less to look at. -/
theorem length_upper_dropEnding {head : Bytes} (h : head ≠ []) :
    (upper (head.dropEnding [Path.slash])).length < head.length := by
  obtain ⟨path, b, rfl⟩ := (List.eq_nil_or_concat head).resolve_left h
  rw [List.concat_eq_append, List.length_append]
  refine Nat.lt_succ_of_le ?_
  by_cases hb : b = Path.slash
  · rw [hb, dropEnding_slash]
    exact length_upper_le path
  · rw [dropEnding_slash_of_ne hb, upper_concat_of_ne hb]
    exact length_upper_le path

/-- The paths at which a source is looked for, one after the other.  A slash at the end is dropped, and
then the last name. -/
def rounds (head : Bytes) : List Bytes :=
  if h : head = [] then []
  else
    have := length_upper_dropEnding h
    head.dropEnding [Path.slash] :: rounds (upper (head.dropEnding [Path.slash]))
termination_by head.length

theorem rounds_nil : rounds [] = [] := by
  rw [rounds, dif_pos rfl]

/-- Each round drops a slash at the end and looks at what is left. -/
theorem rounds_of_ne_nil {head : Bytes} (h : head ≠ []) :
    rounds head = head.dropEnding [Path.slash] :: rounds (upper (head.dropEnding [Path.slash])) := by
  rw [rounds, dif_neg h]

/-- **The rounds come to an end**, whatever the source looks like. -/
theorem length_rounds_le (head : Bytes) : (rounds head).length ≤ head.length := by
  fun_induction rounds head with
  | case1 => exact Nat.le_refl 0
  | case2 head h hlt ih => exact Nat.succ_le_of_lt (Nat.lt_of_le_of_lt ih hlt)

/-- The path of some names from the root, which has no name itself. -/
abbrev fromRoot (cs : List Bytes) : Bytes :=
  cs.flatMap (Path.slash :: ·)

theorem fromRoot_concat (cs : List Bytes) (c : Bytes) :
    fromRoot (cs ++ [c]) = fromRoot cs ++ Path.slash :: c := by
  simp [fromRoot]

/-- A name is dropped up to the slash before it. -/
theorem upper_of_name (path : Bytes) {c : Bytes} (hc : Path.IsName c) :
    upper (path ++ Path.slash :: c) = path ++ [Path.slash] := by
  rw [upper, Path.dropWhile_reverse_concat path hc.no_slash, List.reverse_cons, List.reverse_reverse]

/-- A slash at the end costs no round. -/
theorem rounds_of_slash (path : Bytes) :
    rounds (path ++ [Path.slash]) = path :: rounds (upper path) := by
  rw [rounds_of_ne_nil (by simp), dropEnding_slash]

/-- A name takes one round. -/
theorem rounds_of_name (path : Bytes) {c : Bytes} (hc : Path.IsName c) :
    rounds (path ++ Path.slash :: c) = (path ++ Path.slash :: c) :: rounds (path ++ [Path.slash]) := by
  have hdrop : (path ++ Path.slash :: c).dropEnding [Path.slash] = path ++ Path.slash :: c := by
    obtain ⟨init, b, rfl⟩ := (List.eq_nil_or_concat c).resolve_left hc.ne_nil
    have hb : b ≠ Path.slash := fun h => hc.no_slash (by simp [h])
    rw [List.concat_eq_append, ← List.cons_append, ← List.append_assoc, dropEnding_slash_of_ne hb]
  rw [rounds_of_ne_nil (by simp), hdrop, upper_of_name path hc]

/-- From the slash behind some names, the rounds go through all paths that these names give. -/
theorem rounds_fromRoot {cs : List Bytes} (hcs : ∀ c ∈ cs, Path.IsName c) :
    rounds (fromRoot cs ++ [Path.slash]) =
      (List.range (cs.length + 1)).reverse.map fun n => fromRoot (cs.take n) := by
  -- from the end, since a round drops the last name
  induction cs using List.reverseRecOn with
  | nil => exact (rounds_of_slash []).trans (congrArg _ rounds_nil)
  | append_singleton cs c ih =>
      have hc : Path.IsName c := hcs c (by simp)
      have hinit := ih fun c hc => hcs c (List.mem_append_left _ hc)
      have htake : ∀ n ∈ (List.range (cs.length + 1)).reverse,
          fromRoot (cs.take n) = fromRoot ((cs ++ [c]).take n) := by
        intro n hn
        have hle : n ≤ cs.length := by
          have := List.mem_range.1 (List.mem_reverse.1 hn)
          omega
        rw [List.take_append_of_le_length hle]
      rw [rounds_of_slash, fromRoot_concat, upper_of_name _ hc, hinit, List.map_congr_left htake,
        List.length_append, List.length_singleton, List.range_succ (n := cs.length + 1),
        List.reverse_concat, List.map_cons, List.take_of_length_le (by simp), fromRoot_concat]

section

variable {source : Bytes} (habs : Path.isAbsolute source = true) (hclean : Path.clean source = source)

include habs hclean

/-- A clean absolute path is spelled by its components. -/
theorem fromRoot_components (hroot : source ≠ [Path.slash]) :
    fromRoot (Path.components source) = source := by
  refine Path.flatMap_components habs hclean fun hnil => hroot ?_
  rw [← hclean, Path.clean, habs, hnil]
  rfl

/-- **The rounds of a cleaned path** go through the paths above it. -/
theorem rounds_eq_ancestors (hroot : source ≠ [Path.slash]) : rounds source = ancestors source := by
  have hnames : ∀ c ∈ Path.components source, Path.IsName c := fun c hc =>
    Path.isName_of_mem_components habs hc
  have hsource := fromRoot_components habs hclean hroot
  rcases List.eq_nil_or_concat (Path.components source) with hnil | ⟨cs, c, hconcat⟩
  · rw [hnil] at hsource
    rw [← hsource] at habs
    cases habs
  · rw [List.concat_eq_append] at hconcat
    have hc : Path.IsName c := hnames c (by simp [hconcat])
    have hself : source = fromRoot cs ++ Path.slash :: c := by
      rw [← fromRoot_concat, ← hconcat, hsource]
    have hall := rounds_fromRoot hnames
    rw [hsource] at hall
    rw [ancestors, ← hall, rounds_of_slash, hself, rounds_of_name _ hc, upper_of_name _ hc]

end

/-! ### Paths of a source -/

/-- What is left of a source behind a path that it is within. -/
theorem relative_eq_iff {dir path rest : Bytes} (h : Path.isWithin dir path = true) :
    relative dir path = rest ↔ path = dir ∧ rest = [] ∨ path = dir ++ Path.slash :: rest := by
  rcases Path.isWithin_iff.1 h with rfl | ⟨more, rfl⟩
  · have hself : relative path path = [] := by simp [relative]
    rw [hself]
    simp [eq_comm]
  · rw [relative_append]
    simp

theorem fromRoot_append (cs ds : List Bytes) : fromRoot (cs ++ ds) = fromRoot cs ++ fromRoot ds :=
  List.flatMap_append

/-- The first names of a path give a path that it is within. -/
theorem isWithin_take (cs : List Bytes) (n : Nat) :
    Path.isWithin (fromRoot (cs.take n)) (fromRoot cs) = true := by
  have h := fromRoot_append (cs.take n) (cs.drop n)
  rw [List.take_append_drop] at h
  rw [Path.isWithin_iff, h]
  cases cs.drop n with
  | nil => exact .inl (List.append_nil _)
  | cons c ds => exact .inr ⟨c ++ fromRoot ds, rfl⟩

/-- There are no other such paths. -/
theorem exists_take_of_isWithin {cs : List Bytes} (hcs : ∀ c ∈ cs, Path.IsName c) {path : Bytes}
    (h : Path.isWithin path (fromRoot cs) = true) : ∃ n ≤ cs.length, path = fromRoot (cs.take n) := by
  induction cs generalizing path with
  | nil =>
      have hnil : path = [] := List.prefix_nil.1 (Path.prefix_of_isWithin h)
      exact ⟨0, Nat.le_refl 0, hnil⟩
  | cons c cs ih =>
      have hrest : ∀ c ∈ cs, Path.IsName c := fun c hc => hcs c (List.mem_cons_of_mem _ hc)
      cases path with
      | nil => exact ⟨0, Nat.zero_le _, rfl⟩
      | cons b path =>
          rcases Path.isWithin_iff.1 h with heq | ⟨rest, heq⟩
          · exact ⟨_, Nat.le_refl _, by rw [List.take_length, heq]⟩
          · have hcons : Path.slash :: (c ++ fromRoot cs) = b :: (path ++ Path.slash :: rest) := heq
            obtain ⟨rfl, htail⟩ := List.cons.inj hcons
            rcases List.append_eq_append_iff.1 htail with ⟨more, rfl, hmore⟩ | ⟨more, rfl, hmore⟩
            · obtain ⟨n, hn, rfl⟩ := ih hrest (Path.isWithin_iff.2 (.inr ⟨rest, hmore⟩))
              exact ⟨n + 1, Nat.succ_le_succ hn, rfl⟩
            · -- the path ends in the first name, and so with it
              cases more with
              | nil => exact ⟨1, by simp, by simp [fromRoot]⟩
              | cons b more =>
                  obtain ⟨rfl, -⟩ := List.cons.inj hmore
                  exact absurd (by simp) (hcs _ List.mem_cons_self).no_slash

/-- The ancestors of a path are spelled by its first components. -/
theorem mem_ancestors {source path : Bytes} :
    path ∈ ancestors source ↔
      ∃ n ≤ (Path.components source).length, path = fromRoot ((Path.components source).take n) := by
  simp only [ancestors, List.mem_map, List.mem_reverse, List.mem_range, Nat.lt_succ_iff, eq_comm]

/-- The paths above a path come in order, the longest first. -/
theorem pairwise_ancestors (source : Bytes) :
    (ancestors source).Pairwise fun longer shorter => shorter.length ≤ longer.length := by
  rw [ancestors, List.pairwise_map, List.pairwise_reverse]
  refine List.pairwise_lt_range.imp fun {n m} hlt => ?_
  have h := isWithin_take ((Path.components source).take m) n
  rw [List.take_take, Nat.min_eq_left (Nat.le_of_lt hlt)] at h
  exact (Path.prefix_of_isWithin h).length_le

section

variable {source : Bytes} (habs : Path.isAbsolute source = true) (hclean : Path.clean source = source)
  (hroot : source ≠ [Path.slash])

include habs hclean hroot

/-- The ancestors of a path are the paths that it is within. -/
theorem mem_ancestors_iff {path : Bytes} :
    path ∈ ancestors source ↔ Path.isWithin path source = true := by
  have hsource := fromRoot_components habs hclean hroot
  rw [mem_ancestors]
  constructor
  · rintro ⟨n, -, rfl⟩
    have h := isWithin_take (Path.components source) n
    rwa [hsource] at h
  · intro h
    rw [← hsource] at h
    exact exists_take_of_isWithin (fun c hc => Path.isName_of_mem_components habs hc) h

/-- The longest of them is the path itself. -/
theorem ancestors_eq_cons : ∃ shorter, ancestors source = source :: shorter := by
  refine ⟨(List.range (Path.components source).length).reverse.map fun n =>
    fromRoot ((Path.components source).take n), ?_⟩
  rw [ancestors, List.range_succ, List.reverse_concat, List.map_cons, List.take_length]
  exact congrArg (· :: _) (fromRoot_components habs hclean hroot)

end

/-- The longest path of a source at which there is something, the root left aside. -/
structure Longest (d : Disk) (source path : Bytes) : Prop where
  ne_nil : path ≠ []
  within : Path.isWithin path source = true
  present : ∃ n, d.stat path = .ok n
  longest : ∀ other, other ≠ [] → Path.isWithin other source = true → (∃ n, d.stat other = .ok n) →
    other.length ≤ path.length

/-- There is at most one. -/
theorem Longest.unique {d : Disk} {source path other : Bytes} (h : Longest d source path)
    (ho : Longest d source other) : other = path := by
  have hlength : other.length = path.length :=
    Nat.le_antisymm (h.longest other ho.ne_nil ho.within ho.present)
      (ho.longest path h.ne_nil h.within h.present)
  exact (List.prefix_of_prefix_length_le (Path.prefix_of_isWithin ho.within) (Path.prefix_of_isWithin h.within)
    (Nat.le_of_eq hlength)).eq_of_length hlength

/-! ### Tasks -/

/-- What is to be done with a source. -/
inductive Task where
  | directory (path : Bytes)
  | file (path : Bytes)
  | archive (path inside : Bytes)
deriving DecidableEq

section

variable {m : Type → Type} [Monad m] [Machine m]

/-- What is done for a task. -/
def Task.perform (j : Job) : Task → Run m Causes
  | .directory path => do
    return Causes.within "unable to process directory" (← Job.directory j path)
  | .file path => Job.file j path (Path.base path)
  | .archive path inside => do
    return Causes.within "unable to process archive" (← Job.archive j path inside [])

/-- The task of a source, found by looking at some paths of it one after the other; `whole` tells that the
first one is the source itself.  Nothing is processed here. -/
def findTask (source : Bytes) (whole : Bool) : List Bytes → Run m (Except Bytes Task)
  | [] => return .error ("input source was not found (" ++ source ++ ")")
  | head :: heads => do
    if ← Machine.isCancelled then return .error cancelled
    else
      match ← Machine.stat head with
      | .error _ => findTask source false heads
      | .ok .dir =>
        if whole then return .ok (.directory head)
        else return .error ("input source was not found " ++ notFound source head)
      | .ok (.file _) =>
        match ← isArchive head with
        | .error e => return .error ("unable to check archive type: " ++ e.message)
        | .ok true => return .ok (.archive head (relative head source))
        | .ok false =>
          if whole then return .ok (.file head)
          else return .error ("input source was not found " ++ notFound source head)
      | .ok _ => return .error ("unexpected path mode for " ++ notFound source head)

/-- Does what was found, or tells why there is nothing to do. -/
def finish (j : Job) : Except Bytes Task → Run m Causes
  | .error message => return [message]
  | .ok task => task.perform j

/-- A source is processed in two parts, and only the second one touches a stylesheet. -/
theorem resolve_eq_findTask [LawfulMonad m] (j : Job) (source : Bytes) (whole : Bool)
    (heads : List Bytes) :
    (resolve j source whole heads : Run m Causes) = findTask source whole heads >>= finish j := by
  induction heads generalizing whole with
  | nil => rw [resolve, resolveWith, findTask, pure_bind, finish]
  | cons head heads ih =>
      rw [resolve, resolveWith, findTask, unlessCancelled, bind_assoc]
      refine bind_congr fun stopped => ?_
      cases stopped with
      | true => simp only [if_true, pure_bind, finish]
      | false =>
          simp only [Bool.false_eq_true, if_false, bind_assoc]
          refine bind_congr fun node => ?_
          cases node with
          -- nothing here: the only case with another round
          | error e => exact ih false
          | ok kind =>
              cases kind with
              | dir => cases whole <;> simp [finish, Task.perform]
              | file size =>
                  simp only [bind_assoc]
                  refine bind_congr fun found => ?_
                  rcases found with e | (_ | _)
                  · simp [finish]
                  · cases whole <;> simp [finish, Task.perform]
                  · simp [finish, Task.perform]
              | _ => simp [finish]

/-- **To process a path is to find its task and to do it.** -/
theorem process_eq_findTask [LawfulMonad m] (j : Job) {source : Bytes}
    (habs : Path.isAbsolute source = true) (hclean : Path.clean source = source)
    (hroot : source ≠ [Path.slash]) :
    (process j source : Run m Causes) = findTask source true (rounds source) >>= finish j := by
  rw [process_eq_resolve j habs, rounds_eq_ancestors habs hclean hroot, ← resolve_eq_findTask]

end

/-! ### The search -/

/-- The task told by what is found at a path of the source. -/
def verdict (source : Bytes) (whole : Bool) (head : Bytes) : Node → Except Bytes Task
  | .dir =>
    if whole then .ok (.directory head)
    else .error ("input source was not found " ++ notFound source head)
  | .file data =>
    if Archive.hasSignature data then .ok (.archive head (relative head source))
    else if whole then .ok (.file head)
    else .error ("input source was not found " ++ notFound source head)
  | _ => .error ("unexpected path mode for " ++ notFound source head)

section

variable {s : State} (hchecks : s.2.checks = none)

include hchecks

/-- Something at a path decides. -/
theorem exec_findTask_present (source : Bytes) (whole : Bool) {head : Bytes} {n : Node}
    (hstat : s.2.disk.stat head = .ok n) (heads : List Bytes) :
    exec (findTask source whole (head :: heads)) s = (verdict source whole head n, s) := by
  have hkind : exec (Machine.stat head) s = (.ok n.kind, s) := by
    rw [exec_stat, hstat]
    rfl
  rw [findTask, exec_bind, exec_isCancelled, hchecks]
  simp only [Bool.false_eq_true, if_false]
  rw [exec_bind, hkind]
  cases n with
  | dir => cases whole <;> rfl
  | file data =>
      have harchive : exec (isArchive head) s = (.ok (Archive.hasSignature data), s) := by
        have hread : exec (Machine.read head) s = (.ok data, s) := by
          rw [← Disk.read_of_stat hstat]
          rfl
        rw [isArchive, exec_bind, hread]
        rfl
      simp only [Node.kind]
      rw [exec_bind, harchive, verdict]
      cases Archive.hasSignature data <;> cases whole <;> rfl
  | _ => rfl

/-- Where nothing is found the path above is tried. -/
theorem exec_findTask_missing (source : Bytes) (whole : Bool) {missing : List Bytes}
    (hmissing : ∀ head ∈ missing, ∃ e, s.2.disk.stat head = .error e) (heads : List Bytes) :
    exec (findTask source whole (missing ++ heads)) s =
      exec (findTask source (whole && missing.isEmpty) heads) s := by
  induction missing generalizing whole with
  | nil => rw [List.nil_append, List.isEmpty_nil, Bool.and_true]
  | cons head missing ih =>
      obtain ⟨e, he⟩ := hmissing head List.mem_cons_self
      have hkind : exec (Machine.stat head) s = (.error e, s) := by
        rw [exec_stat, he]
        rfl
      have hnext := ih false fun head hhead => hmissing head (List.mem_cons_of_mem _ hhead)
      rw [List.cons_append, findTask, exec_bind, exec_isCancelled, hchecks]
      simp only [Bool.false_eq_true, if_false]
      rw [exec_bind, hkind, List.isEmpty_cons, Bool.and_false]
      exact hnext

end

/-- The task that a source has on a disk. -/
inductive Selects (d : Disk) (source : Bytes) : Task → Prop where
  | directory (hlongest : Longest d source source) (hdir : d.stat source = .ok .dir) :
      Selects d source (.directory source)
  | file {data : Bytes} (hlongest : Longest d source source) (hfile : d.stat source = .ok (.file data))
      (hplain : Archive.hasSignature data = false) : Selects d source (.file source)
  | archive {path inside data : Bytes} (hlongest : Longest d source path)
      (hfile : d.stat path = .ok (.file data)) (hsig : Archive.hasSignature data = true)
      (hinside : source = path ∧ inside = [] ∨ source = path ++ Path.slash :: inside) :
      Selects d source (.archive path inside)

/-- A task is selected by the longest path that is there. -/
theorem Selects.exists_longest {d : Disk} {source : Bytes} {t : Task} (h : Selects d source t) :
    ∃ path, Longest d source path := by
  cases h with
  | directory hlongest => exact ⟨_, hlongest⟩
  | file hlongest => exact ⟨_, hlongest⟩
  | archive hlongest => exact ⟨_, hlongest⟩

/-- **The longest path that is there decides**: its verdict is the task that is selected. -/
theorem Longest.verdict_eq_ok_iff {d : Disk} {source path : Bytes} {n : Node}
    (hlongest : Longest d source path) (hstat : d.stat path = .ok n) (t : Task) :
    verdict source (path == source) path n = .ok t ↔ Selects d source t := by
  constructor
  · intro h
    cases n with
    | dir =>
        rw [verdict] at h
        split at h
        · obtain rfl := eq_of_beq ‹_›
          obtain rfl := Except.ok.inj h
          exact .directory hlongest hstat
        · cases h
    | file data =>
        rw [verdict] at h
        cases hsig : Archive.hasSignature data with
        | true =>
            rw [hsig, if_pos rfl] at h
            obtain rfl := Except.ok.inj h
            exact .archive hlongest hstat hsig ((relative_eq_iff hlongest.within).1 rfl)
        | false =>
            rw [hsig, if_neg Bool.false_ne_true] at h
            split at h
            · obtain rfl := eq_of_beq ‹_›
              obtain rfl := Except.ok.inj h
              exact .file hlongest hstat hsig
            · cases h
    | _ => cases h
  · intro h
    cases h with
    | directory hself hdir =>
        obtain rfl := hlongest.unique hself
        obtain rfl := Except.ok.inj (hstat.symm.trans hdir)
        rw [verdict, beq_self_eq_true, if_pos rfl]
    | file hself hfile hplain =>
        obtain rfl := hlongest.unique hself
        obtain rfl := Except.ok.inj (hstat.symm.trans hfile)
        rw [verdict, hplain, beq_self_eq_true]
        rfl
    | archive hother hfile hsig hinside =>
        obtain rfl := hlongest.unique hother
        obtain rfl := Except.ok.inj (hstat.symm.trans hfile)
        rw [verdict, if_pos hsig, (relative_eq_iff hlongest.within).2 hinside]

section

variable {source : Bytes} (habs : Path.isAbsolute source = true) (hclean : Path.clean source = source)
  (hroot : source ≠ [Path.slash])

include habs hclean hroot

/-- The first of the paths above a source at which there is something is the longest one. -/
theorem longest_of_first {d : Disk} {missing shorter : List Bytes} {path : Bytes} {n : Node}
    (hrounds : ancestors source = missing ++ path :: shorter)
    (hmissing : ∀ head ∈ missing, ∃ e, d.stat head = .error e) (hstat : d.stat path = .ok n) :
    Longest d source path where
  ne_nil := by
    rintro rfl
    obtain ⟨e, he⟩ := d.stat_nil
    rw [he] at hstat
    cases hstat
  within := (mem_ancestors_iff habs hclean hroot).1 (by simp [hrounds])
  present := ⟨n, hstat⟩
  longest := by
    rintro other - hwithin ⟨k, hk⟩
    have hmem := (mem_ancestors_iff habs hclean hroot).2 hwithin
    rw [hrounds, List.mem_append, List.mem_cons] at hmem
    have hordered := pairwise_ancestors source
    rw [hrounds] at hordered
    rcases hmem with hmem | rfl | hmem
    · obtain ⟨e, he⟩ := hmissing other hmem
      rw [he] at hk
      cases hk
    · exact Nat.le_refl _
    -- behind the path there are only shorter ones
    · exact List.rel_of_pairwise_cons (List.pairwise_append.1 hordered).2.1 hmem

/-- Nothing is before a path exactly if it is the source itself. -/
theorem isEmpty_missing_eq {d : Disk} {missing shorter : List Bytes} {path : Bytes} {n : Node}
    (hrounds : ancestors source = missing ++ path :: shorter)
    (hmissing : ∀ head ∈ missing, ∃ e, d.stat head = .error e) (hstat : d.stat path = .ok n) :
    missing.isEmpty = (path == source) := by
  obtain ⟨rest, hrest⟩ := ancestors_eq_cons habs hclean hroot
  rw [hrest] at hrounds
  cases missing with
  | nil =>
      obtain ⟨rfl, -⟩ := List.cons.inj hrounds
      exact (beq_self_eq_true _).symm
  | cons head missing =>
      obtain ⟨rfl, -⟩ := List.cons.inj hrounds
      obtain ⟨e, he⟩ := hmissing source List.mem_cons_self
      refine (beq_eq_false_iff_ne.2 ?_).symm
      rintro rfl
      rw [he] at hstat
      cases hstat

/-- **The search** comes to the longest path at which there is something, or finds that there is none. -/
theorem exec_findTask_rounds {s : State} (hchecks : s.2.checks = none) :
    ∃ r, exec (findTask source true (rounds source)) s = (r, s) ∧
      ∀ t, r = .ok t ↔ Selects s.2.disk source t := by
  rw [rounds_eq_ancestors habs hclean hroot]
  have hfailed : ∀ head, (!(s.2.disk.stat head).isOk) = true → ∃ e, s.2.disk.stat head = .error e := by
    intro head h
    cases hstat : s.2.disk.stat head with
    | error e => exact ⟨e, rfl⟩
    | ok n => simp [hstat, Except.isOk, Except.toBool] at h
  -- the paths at which there is nothing come first, and then the one that decides, if there is one
  cases hfind : (ancestors source).find? fun head => (s.2.disk.stat head).isOk with
  | some path =>
      obtain ⟨hok, missing, shorter, hrounds, hbefore⟩ := List.find?_eq_some_iff_append.1 hfind
      have hmissing : ∀ head ∈ missing, ∃ e, s.2.disk.stat head = .error e := fun head hhead =>
        hfailed head (hbefore head hhead)
      cases hstat : s.2.disk.stat path with
      | error e => simp [hstat, Except.isOk, Except.toBool] at hok
      | ok n =>
          refine ⟨_, ?_,
            (longest_of_first habs hclean hroot hrounds hmissing hstat).verdict_eq_ok_iff hstat⟩
          rw [hrounds, exec_findTask_missing hchecks source true hmissing, Bool.true_and,
            isEmpty_missing_eq habs hclean hroot hrounds hmissing hstat,
            exec_findTask_present hchecks source _ hstat]
  | none =>
      have hmissing : ∀ head ∈ ancestors source, ∃ e, s.2.disk.stat head = .error e := fun head hhead =>
        hfailed head (by simpa using List.find?_eq_none.1 hfind head hhead)
      have hall := exec_findTask_missing hchecks source true hmissing []
      rw [List.append_nil, findTask] at hall
      refine ⟨_, hall, fun t => ⟨fun h => (by cases h), fun h => ?_⟩⟩
      obtain ⟨path, hlongest⟩ := h.exists_longest
      obtain ⟨n, hn⟩ := hlongest.present
      obtain ⟨e, he⟩ := hmissing path ((mem_ancestors_iff habs hclean hroot).2 hlongest.within)
      rw [he] at hn
      cases hn

end

/-! ### The task of a source -/

/-- **A source is processed as the longest path of it that exists.**  The search ends for any source, and for
a cleaned one it has a round for each name and one for the root.  It finds the task of the source and changes
nothing; a source without one is reported, and that is all. -/
theorem process_longest (j : Job) (source : Bytes) (s : State) (habs : Path.isAbsolute source = true)
    (hclean : Path.clean source = source) (hroot : source ≠ [Path.slash]) (hchecks : s.2.checks = none) :
    (process j source : Run (StateM World) Causes) = findTask source true (rounds source) >>= finish j ∧
      (∀ path, (rounds path).length ≤ path.length) ∧
      (rounds source).length = (Path.components source).length + 1 ∧
      (∀ t, exec (findTask source true (rounds source)) s = (.ok t, s) ↔ Selects s.2.disk source t) ∧
      ((∀ t, ¬ Selects s.2.disk source t) →
        ∃ message, exec (findTask source true (rounds source)) s = (.error message, s) ∧
          exec (process j source) s = ([message], s)) := by
  have hprocess := process_eq_findTask (m := StateM World) j habs hclean hroot
  obtain ⟨r, hfound, hr⟩ := exec_findTask_rounds habs hclean hroot hchecks
  refine ⟨hprocess, length_rounds_le, ?_, fun t => ?_, fun hno => ?_⟩
  · rw [rounds_eq_ancestors habs hclean hroot, ancestors, List.length_map, List.length_reverse,
      List.length_range]
  · rw [hfound, Prod.mk.injEq, and_iff_left rfl]
    exact hr t
  · cases r with
    | error message =>
        refine ⟨message, hfound, ?_⟩
        rw [hprocess, exec_bind, hfound]
        rfl
    | ok t => exact absurd ((hr t).1 rfl) (hno t)

/-- A source behind an archive: nothing is found at the whole of it, and the archive above is processed. -/
theorem process_longest_behind :
    Selects (archiveWorld nearArchive).disk "/m.zip/css2" (.archive "/m.zip" "css2") ∧
      exec (process printingJob "/m.zip/css2") ({}, archiveWorld nearArchive) =
        exec ((Task.archive "/m.zip" "css2").perform printingJob) ({}, archiveWorld nearArchive) := by
  have hstat := stat_archiveWorld nearArchive
  have hbehind : ∃ e, (archiveWorld nearArchive).disk.stat
      (Path.ofComponents true ([("m.zip" : Bytes)] ++ [("css2" : Bytes)])) = .error e :=
    Disk.stat_behind_file
      (fun c hc => Path.isName_of_mem_components (p := "/m.zip/css2") (by decide) hc) (by decide) hstat
  have hrounds : ancestors "/m.zip/css2" = [("/m.zip/css2" : Bytes)] ++ ("/m.zip" : Bytes) :: [[]] := by
    decide
  have hlongest : Longest (archiveWorld nearArchive).disk "/m.zip/css2" "/m.zip" :=
    longest_of_first (by decide) (by decide) (by decide) hrounds
      (fun head hhead => List.mem_singleton.1 hhead ▸ hbehind) hstat
  have hselects : Selects (archiveWorld nearArchive).disk "/m.zip/css2" (.archive "/m.zip" "css2") :=
    .archive hlongest hstat (by decide +kernel) (.inr (by decide))
  obtain ⟨hprocess, -, -, hiff, -⟩ := process_longest printingJob "/m.zip/css2"
    ({}, archiveWorld nearArchive) (by decide) (by decide) (by decide) rfl
  refine ⟨hselects, ?_⟩
  rw [hprocess, exec_bind, (hiff _).2 hselects]
  rfl

end Job

end Restyle
