import Restyle.Archive.Walk
import Restyle.Proofs.Path

/-!
# Entries that are visited

Which entries of an archive are visited is a matter of their names.  A path takes in the entries below it, but
also the ones *beside* it (`Beside`), whose names go on without a slash.

How far a visit gets is a matter of their contents, for an entry that cannot be opened is the last one.  The
archive may be another one in every turn (`Turn`), and if it is not, it is known from the start which entries
are attempted (`attempted`).

* `isVisited_iff`: what is visited is below the path or beside it.
* `Attempted.length_eq_iff`: all entries are attempted exactly when each can be opened, but perhaps the last.
-/

namespace Restyle.Archive

/-- More behind an archive does not change what it is. -/
theorem hasSignature_append {data : Bytes} (h : 4 ≤ data.length) (more : Bytes) :
    hasSignature (data ++ more) = hasSignature data := by
  match data, h with
  | _ :: _ :: _ :: _ :: _, _ => rfl

/-! ### Entries below a path, and beside it -/

/-- The entry is a file with a wanted extension, and at or below a path. -/
def isBelow (inside : Bytes) (exts : List Bytes) (h : Header) : Bool :=
  !h.isDirectory && Path.isWithin inside h.name && isWanted exts h.name

/-- The entry is a file with a wanted extension, and its name goes on behind a path, but not with a
slash. -/
structure Beside (inside : Bytes) (exts : List Bytes) (h : Header) : Prop where
  file : h.isDirectory = false
  wanted : isWanted exts h.name = true
  name : ∃ b rest, b ≠ Path.slash ∧ h.name = inside ++ b :: rest

/-- **What is visited** is below the path or beside it. -/
theorem isVisited_iff {inside : Bytes} {exts : List Bytes} {h : Header} :
    isVisited inside exts h = true ↔ isBelow inside exts h = true ∨ Beside inside exts h := by
  simp only [isVisited, isBelow, Bool.and_eq_true, Bool.not_eq_true', List.isPrefixOf_iff_prefix]
  constructor
  · rintro ⟨⟨hfile, rest, hname⟩, hwanted⟩
    cases rest with
    | nil => exact .inl ⟨⟨hfile, by simp [Path.isWithin, ← hname]⟩, hwanted⟩
    | cons b rest =>
        by_cases hb : b = Path.slash
        · exact .inl ⟨⟨hfile, hname ▸ Path.isWithin_append.2 hb⟩, hwanted⟩
        · exact .inr ⟨hfile, hwanted, b, rest, hb, hname.symm⟩
  · rintro (⟨⟨hfile, hwithin⟩, hwanted⟩ | ⟨hfile, hwanted, b, rest, -, hname⟩)
    · rw [Path.isWithin, Bool.or_eq_true, beq_iff_eq, List.isPrefixOf_iff_prefix] at hwithin
      rcases hwithin with heq | ⟨rest, hrest⟩
      · exact ⟨⟨hfile, heq ▸ List.prefix_rfl⟩, hwanted⟩
      · exact ⟨⟨hfile, Path.slash :: rest, by simpa using hrest⟩, hwanted⟩
    · exact ⟨⟨hfile, b :: rest, hname.symm⟩, hwanted⟩

/-- What is beside a path is not below it. -/
theorem Beside.not_isBelow {inside : Bytes} {exts : List Bytes} {h : Header}
    (hb : Beside inside exts h) : isBelow inside exts h = false := by
  obtain ⟨b, rest, hne, hname⟩ := hb.name
  have hwithin : Path.isWithin inside h.name = false := by
    rw [← Bool.not_eq_true, hname, Path.isWithin_append]
    exact hne
  rw [isBelow, hwithin, Bool.and_false, Bool.false_and]

/-- As many entries are below a path as are visited only if none is beside it. -/
theorem length_filter_isBelow_iff {inside : Bytes} {exts : List Bytes} {hs : List Header} :
    (hs.filter (isBelow inside exts)).length = (hs.filter (isVisited inside exts)).length ↔
      ∀ h ∈ hs, ¬ Beside inside exts h := by
  have hsub : (hs.filter (isVisited inside exts)).filter (isBelow inside exts) =
      hs.filter (isBelow inside exts) := by
    rw [List.filter_filter]
    refine List.filter_congr fun h _ => ?_
    cases hb : isBelow inside exts h with
    | false => rfl
    | true => exact isVisited_iff.2 (.inl hb)
  rw [← hsub, List.length_filter_eq_length_iff]
  constructor
  · intro hall h hh hb
    have := hall h (List.mem_filter.2 ⟨hh, isVisited_iff.2 (.inr hb)⟩)
    rw [hb.not_isBelow] at this
    cases this
  · intro hnone h hh
    obtain ⟨hh, hv⟩ := List.mem_filter.1 hh
    exact (isVisited_iff.1 hv).resolve_right (hnone h hh)

/-- Where nothing is beside the path, what is visited is what is below it. -/
theorem filter_isBelow_eq {inside : Bytes} {exts : List Bytes} {hs : List Header}
    (hnone : ∀ h ∈ hs, ¬ Beside inside exts h) :
    hs.filter (isBelow inside exts) = hs.filter (isVisited inside exts) := by
  refine List.filter_congr fun h hh => Bool.eq_iff_iff.2 ?_
  rw [isVisited_iff, or_iff_left (hnone h hh)]

/-! ### Entries that can be opened -/

/-- The entry can be opened. -/
def canOpen (data : Array UInt8) (h : Header) : Bool :=
  (h.content data).opened.isOk

/-- The entries up to the first that cannot be opened, and that one. -/
def attempted (data : Array UInt8) : List Header → List Header
  | [] => []
  | h :: hs => if canOpen data h then h :: attempted data hs else [h]

/-- Attempts stop somewhere, but skip nothing. -/
theorem attempted_isPrefix (data : Array UInt8) (hs : List Header) : attempted data hs <+: hs := by
  induction hs with
  | nil => exact List.prefix_rfl
  | cons h hs ih =>
      rw [attempted]
      split
      · exact (List.prefix_cons_inj h).2 ih
      · exact ⟨hs, rfl⟩

theorem attempted_eq_self_iff (data : Array UInt8) (hs : List Header) :
    attempted data hs = hs ↔ ∀ h ∈ hs.dropLast, canOpen data h = true := by
  induction hs with
  | nil => simp [attempted]
  | cons h hs ih =>
      rw [attempted]
      cases hs with
      | nil => simp [attempted]
      | cons h' hs =>
          rw [List.dropLast_cons_cons, List.forall_mem_cons]
          split
          · next hopen => simp [hopen, ih]
          · next hopen => simp [hopen]

/-! ### Turns -/

/-- An entry whose turn has come, and what reading the archive gives then. -/
structure Turn where
  header : Header
  archive : Except Files.Failure Bytes

namespace Turn

/-- What opening the entry gives, and then reading. -/
def opened (t : Turn) : Except Error (Except Error Bytes) :=
  t.header.opened t.archive

def canOpen (t : Turn) : Bool :=
  t.opened.isOk

/-- The turn of an entry in an archive that is there. -/
def of (data : Bytes) (h : Header) : Turn :=
  ⟨h, .ok data⟩

theorem canOpen_of (data : Bytes) (h : Header) : (Turn.of data h).canOpen = Archive.canOpen data.toArray h := rfl

end Turn

/-- Entries and the turns that they come to, up to the first that cannot be opened. -/
inductive Attempted : List Header → List Turn → Prop where
  | nil : Attempted [] []
  | stop {t : Turn} (hopen : t.canOpen = false) (hs : List Header) : Attempted (t.header :: hs) [t]
  | next {t : Turn} {hs : List Header} {ts : List Turn} (hopen : t.canOpen = true) (hrest : Attempted hs ts) :
      Attempted (t.header :: hs) (t :: ts)

namespace Attempted

variable {hs : List Header} {ts : List Turn}

/-- Only entries of the list have a turn, in their order. -/
theorem isPrefix (h : Attempted hs ts) : ts.map Turn.header <+: hs := by
  induction h with
  | nil => exact List.prefix_rfl
  | @stop t _ hs => exact ⟨hs, rfl⟩
  | @next t _ _ _ _ ih => exact (List.prefix_cons_inj t.header).2 ih

/-- **All entries are attempted** exactly when each can be opened in its turn, but perhaps the last. -/
theorem length_eq_iff (h : Attempted hs ts) :
    ts.length = hs.length ↔ ∀ t ∈ ts.take (hs.length - 1), t.canOpen = true := by
  induction h with
  | nil => simp
  | @stop t hopen hs => cases hs <;> simp [hopen]
  | @next t hs ts hopen hrest ih =>
      rw [List.length_cons, List.length_cons, Nat.add_right_cancel_iff, ih, Nat.add_sub_cancel]
      cases hs with
      | nil =>
          cases hrest
          simp
      | cons h hs => simp [hopen]

theorem map_header_eq_iff (h : Attempted hs ts) : ts.map Turn.header = hs ↔ ts.length = hs.length := by
  constructor
  · intro heq
    rw [← heq, List.length_map]
  · intro hlength
    exact h.isPrefix.eq_of_length (by rw [List.length_map, hlength])

/-- An archive that stays as it is has the turns that were to be expected. -/
theorem eq_map_of {data : Bytes} (h : Attempted hs ts) (hdata : ∀ t ∈ ts, t.archive = .ok data) :
    ts = (attempted data.toArray hs).map (Turn.of data) := by
  induction h with
  | nil => rfl
  | @stop t hopen hs =>
      have ht : t = Turn.of data t.header := by rw [Turn.of, ← hdata t List.mem_cons_self]
      rw [ht, Turn.canOpen_of] at hopen
      rw [attempted, hopen, if_neg Bool.false_ne_true, List.map_singleton, ← ht]
  | @next t hs ts hopen _ ih =>
      have ht : t = Turn.of data t.header := by rw [Turn.of, ← hdata t List.mem_cons_self]
      rw [ht, Turn.canOpen_of] at hopen
      rw [attempted, hopen, if_pos rfl, List.map_cons, ← ht, ← ih fun t ht => hdata t (List.mem_cons_of_mem _ ht)]

/-- In an archive that stays the same, all turns but the last can be opened if all entries but the last can. -/
theorem forall_take_iff {data : Bytes} (h : Attempted hs ts) (hdata : ∀ t ∈ ts, t.archive = .ok data) :
    (∀ t ∈ ts.take (hs.length - 1), t.canOpen = true) ↔ ∀ h ∈ hs.dropLast, canOpen data.toArray h = true := by
  rw [← h.length_eq_iff, ← attempted_eq_self_iff, h.eq_map_of hdata, List.length_map]
  exact ⟨(attempted_isPrefix _ hs).eq_of_length, congrArg List.length⟩

end Attempted

end Restyle.Archive
