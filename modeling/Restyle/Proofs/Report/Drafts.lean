import Mathlib.Data.List.Forall2
import Restyle.Proofs.Archive.ReadBack
import Restyle.Proofs.Files.Rewriting
import Restyle.Proofs.Script
import Restyle.Report

/-!
# Writing a report

A report is written as a draft: some of its text is in the file, some is held back, and the end of the last
entry is still to come.  `Drafted` is the invariant of this, with the text so far as a value of its own; where
it is held back cannot be seen in it.

Files are read between two parts that are written, so that what is read depends on what has been written only
if the file is the report itself.  What can become of an item (`Item.Becomes`) is therefore its content on
the disk before, or the report as far as its text had come.

* `run_close`: closing succeeds if every entry can be written, and then the file begins with the archive of
  what has become of the items.
-/

namespace Restyle

open Files (Place)

/-- A world in which a file has been written. -/
def World.filed (w : World) (p : Place) (data : Bytes) : World :=
  { w with disk := w.disk.put p (.file data) }

namespace Report

/-! ### The file -/

/-- The worlds in which a text has been written to a file, from its beginning on.  Before that the world is as it
was. -/
inductive Written (w : World) (p : Place) (old : Bytes) : Bytes → World → Prop where
  | nothing : Written w p old [] w
  | text (s : Bytes) : Written w p old s (w.filed p (Disk.overlay old 0 s))

namespace Written

variable {w w₁ : World} {p : Place} {old s path : Bytes}

/-- The file has the text, with what is left of its old content behind it. -/
theorem get? (h : Written w p old s w₁) (hold : w.disk.get? p = some (.file old)) :
    w₁.disk.get? p = some (.file (Disk.overlay old 0 s)) := by
  cases h with
  | nothing => rw [hold, Disk.overlay_zero]; rfl
  | text => rw [World.filed, Disk.get?_put (Disk.ne_nil_of_get? hold), if_pos rfl]

/-- What is written behind the text is one text with it. -/
theorem writeAt (h : Written w p old s w₁) (hold : w.disk.get? p = some (.file old)) (t : Bytes) :
    (Machine.writeAt p s.length t : StateM World _).run w₁ =
      (.ok (), w.filed p (Disk.overlay old 0 (s ++ t))) := by
  have hput : (w₁.disk.put p (.file (Disk.overlay old 0 (s ++ t)))) =
      w.disk.put p (.file (Disk.overlay old 0 (s ++ t))) := by
    cases h with
    | nothing => rfl
    | text => rw [World.filed, Disk.put_put (Disk.ne_nil_of_get? hold) hold]
  have hwrite : w₁.disk.writeAt p s.length t = .ok (w.disk.put p (.file (Disk.overlay old 0 (s ++ t)))) := by
    rw [Disk.writeAt, h.get? hold]
    dsimp only
    rw [Disk.overlay_overlay, hput]
  change (World.onOpen fun d => d.writeAt p s.length t).run w₁ = _
  refine World.run_bind_eq_iff.2 ⟨w₁, w₁, rfl, ?_⟩
  dsimp only
  rw [hwrite]
  cases h <;> rfl

/-- A path that leads to the file reads what has been written. -/
theorem stat_of_locate (h : Written w p old s w₁) (hold : w.disk.get? p = some (.file old)) {n : Files.Node}
    (hpath : w.disk.locate true path = .ok (.taken p n)) :
    w₁.disk.stat path = .ok (.file (Disk.overlay old 0 s)) := by
  cases h with
  | nothing =>
      obtain ⟨-, _, -, _, -, hn⟩ := Disk.locate_taken_iff.1 hpath
      obtain rfl := Option.some.inj (hold.symm.trans hn)
      rw [Disk.stat_eq_ok_iff.2 ⟨p, hpath⟩, Disk.overlay_zero]
      rfl
  | text =>
      have hput := Disk.locate_put_file hold (Disk.overlay old 0 s) hpath
      rw [if_pos rfl] at hput
      exact Disk.stat_eq_ok_iff.2 ⟨p, hput⟩

/-- No other path sees what has been written. -/
theorem stat_iff (h : Written w p old s w₁) (hold : w.disk.get? p = some (.file old))
    (hother : ∀ n, w.disk.locate true path ≠ .ok (.taken p n)) {n : Files.Node} :
    w₁.disk.stat path = .ok n ↔ w.disk.stat path = .ok n := by
  cases h with
  | nothing => rfl
  | text => exact Disk.stat_put_file_iff hold _ hother

end Written

/-! ### Items -/

/-- What has become of an item on a disk. -/
def Item.found (d : Disk) (i : Item) : Outcome :=
  if i.origin.isEmpty then .data i.data
  else
    match d.stat i.path with
    | .ok (.file content) => .file content.length content
    | _ => .missing

theorem Item.found_of_stat {d : Disk} {i : Item} (horigin : i.origin ≠ []) {data : Bytes}
    (h : d.stat i.path = .ok (.file data)) : i.found d = .file data.length data := by
  rw [found, if_neg (by simpa using horigin), h]

/-- What is no file is missing. -/
theorem Item.found_of_forall_ne {d : Disk} {i : Item} (horigin : i.origin ≠ [])
    (h : ∀ data, d.stat i.path ≠ .ok (.file data)) : i.found d = .missing := by
  rw [found, if_neg (by simpa using horigin)]
  split
  · next data hdata => exact absurd hdata (h data)
  · rfl

/-- An item that is the file of the report. -/
def Item.IsOwn (d : Disk) (p : Place) (i : Item) : Prop :=
  i.origin ≠ [] ∧ ∃ n, d.locate true i.path = .ok (.taken p n)

/-- What can become of an item while a text is written to a file: it is what it was before or, if it is this
file, the text as far as it had come when it was looked for, and when it was copied. -/
inductive Item.Becomes (d : Disk) (p : Place) (old text : Bytes) (i : Item) : Outcome → Prop where
  | found (h : ¬ i.IsOwn d p) : Item.Becomes d p old text i (i.found d)
  | own (h : i.IsOwn d p) {before after : Bytes} (hbefore : before <+: after) (hafter : after <+: text) :
      Item.Becomes d p old text i (.file (Disk.overlay old 0 before).length (Disk.overlay old 0 after))

namespace Item.Becomes

variable {d : Disk} {p : Place} {old text text' : Bytes} {i : Item} {o : Outcome}

/-- More text changes nothing about what has become of an item. -/
theorem mono (h : i.Becomes d p old text o) (htext : text <+: text') : i.Becomes d p old text' o := by
  cases h with
  | found hother => exact .found hother
  | own hown hbefore hafter => exact .own hown hbefore (hafter.trans htext)

/-- An item that is not the report itself becomes what it was. -/
theorem eq_found (h : i.Becomes d p old text o) (hother : ¬ i.IsOwn d p) : o = i.found d := by
  cases h with
  | found => rfl
  | own hown => exact absurd hown hother

/-- Only an item without path becomes data. -/
theorem origin_eq_nil {content : Bytes} (h : i.Becomes d p old text (.data content)) : i.origin = [] := by
  generalize ho : Outcome.data content = o at h
  cases h with
  | found hother =>
      by_contra horigin
      rw [Item.found, if_neg (by simpa using horigin)] at ho
      split at ho <;> cases ho
  | own => cases ho

end Item.Becomes

/-- The entry of an item.  One that is missing has none. -/
def Outcome.entries (name : Bytes) : Outcome → List Archive.Entry
  | .data content | .file _ content => [⟨name, content⟩]
  | .missing => []

/-- The entries of items of which something has become. -/
def entries (is : List (Bytes × Item)) (os : List Outcome) : List Archive.Entry :=
  (is.zip os).flatMap fun q => q.2.entries q.1.1

/-- The manifest of items of which something has become. -/
def manifest (is : List (Bytes × Item)) (os : List Outcome) : Bytes :=
  (is.zip os).flatMap fun q => manifestLine q.1.1 q.1.2 q.2

/-- All entries of the archive. -/
def archived (is : List (Bytes × Item)) (os : List Outcome) : List Archive.Entry :=
  entries is os ++ [⟨"MANIFEST", manifest is os⟩]

/-- Something can become of any items. -/
theorem exists_becomes (d : Disk) (p : Place) (old text : Bytes) (is : List (Bytes × Item)) :
    ∃ os, List.Forall₂ (fun q o => Item.Becomes d p old text q.2 o) is os := by
  have hone : ∀ i : Item, ∃ o, i.Becomes d p old text o := by
    intro i
    by_cases hown : i.IsOwn d p
    · exact ⟨_, .own hown List.nil_prefix List.nil_prefix⟩
    · exact ⟨_, .found hown⟩
  choose outcome houtcome using hone
  exact ⟨is.map fun q => outcome q.2, List.forall₂_map_right_iff.2 (List.forall₂_same.2 fun q _ => houtcome q.2)⟩

/-! ### Drafts -/

/-- The draft of a text: its beginning is in the file and its end is held back. -/
def Drafted (r : Report) (w : World) (old : Bytes) (d : Draft) (text : Bytes) (w₁ : World) : Prop :=
  ∃ s, Written w r.place old s w₁ ∧ d.offset = s.length ∧ text = s ++ d.held

/-- From one draft to another some entries are added. -/
structure Adds (d : Draft) (text : Bytes) (es : List Archive.Entry) (d' : Draft) (text' : Bytes) : Prop where
  done : d'.done = d.done ++ es.map Archive.Entry.item
  text : text' ++ d'.rest = text ++ d.rest ++ (es.map Archive.Entry.item).flatMap Archive.Item.text

/-- Entries are added one after the other. -/
theorem Adds.trans {d d' d'' : Draft} {text text' text'' : Bytes} {es es' : List Archive.Entry}
    (h : Adds d text es d' text') (h' : Adds d' text' es' d'' text'') : Adds d text (es ++ es') d'' text'' where
  done := by rw [h'.done, h.done, List.map_append, List.append_assoc]
  text := by rw [h'.text, h.text, List.map_append, List.flatMap_append, List.append_assoc]

/-- What adding an item to a draft comes to: something has become of it, and if it can be written it has been
added.  The manifest is left as it is. -/
def Takes (r : Report) (w : World) (old : Bytes) (d : Draft) (text : Bytes) (w₁ : World) (name : Bytes)
    (i : Item) : Prop :=
  ∃ o text', text <+: text' ∧ i.Becomes w.disk r.place old text' o ∧
    ((¬ (∀ e ∈ o.entries name, e.refusal? = none) ∧
      ∃ e w', (r.addItem name i d : StateM World _).run w₁ = (.error e, w')) ∨
    ((∀ e ∈ o.entries name, e.refusal? = none) ∧
      ∃ d' w', (r.addItem name i d : StateM World _).run w₁ = (.ok (o, d'), w') ∧
        Drafted r w old d' text' w' ∧ Adds d text (o.entries name) d' text' ∧ d'.manifest = d.manifest))

section Writing

variable {r : Report} {w w₁ : World} {old : Bytes} {d : Draft} {text : Bytes}

/-- Where the path leads to a file, it is found, opened and copied. -/
theorem run_addItem_file {name : Bytes} {i : Item} (horigin : i.origin ≠ []) {data : Bytes}
    (hstat : w₁.disk.stat i.path = .ok (.file data)) (x : Except Bytes (Bytes × Draft)) (w' : World)
    (hrun : (r.addEntry name (Machine.read i.path) d : StateM World _).run w₁ = (x, w')) :
    (r.addItem name i d : StateM World _).run w₁ = (x.map (Prod.map (.file data.length) id), w') := by
  have hfile : i.origin.isEmpty = false := by simpa using horigin
  have hkind : (Machine.stat i.path : StateM World _).run w₁ = (.ok (.file data.length), w₁) :=
    congrArg (fun k => (Except.map Files.Node.kind k, w₁)) hstat
  have hread : (Machine.read i.path : StateM World _).run w₁ = (.ok data, w₁) :=
    congrArg (·, w₁) (Disk.read_of_stat hstat)
  unfold addItem
  rw [hfile]
  exact World.run_bind_eq_iff.2 ⟨_, _, hkind, World.run_bind_eq_iff.2 ⟨_, _, hread,
    World.run_bind_eq_iff.2 ⟨x, w', hrun, rfl⟩⟩⟩

/-- Where there is no file, nothing is added. -/
theorem run_addItem_missing {name : Bytes} {i : Item} (horigin : i.origin ≠ [])
    (hstat : ∀ data, w₁.disk.stat i.path ≠ .ok (.file data)) :
    (r.addItem name i d : StateM World _).run w₁ = (.ok (.missing, d), w₁) := by
  have hfile : i.origin.isEmpty = false := by simpa using horigin
  unfold addItem
  rw [hfile]
  refine World.run_bind_eq_iff.2 ⟨(w₁.disk.stat i.path).map Files.Node.kind, w₁, rfl, ?_⟩
  cases hnode : w₁.disk.stat i.path with
  | error e => rfl
  | ok n =>
      cases n with
      | file data => exact absurd hnode (hstat data)
      | dir | link | null | full => rfl

section Parts

variable (hopen : r.isOpen = true) (hold : w.disk.get? r.place = some (.file old))

include hopen hold

/-- Writing goes on behind the text. -/
theorem run_extend {s : Bytes} (h : Written w r.place old s w₁) (data : Bytes) :
    (r.extend s.length data : StateM World _).run w₁ =
      (none, w.filed r.place (Disk.overlay old 0 (s ++ data))) := by
  unfold extend
  rw [if_pos hopen]
  exact World.run_bind_eq_iff.2 ⟨_, _, h.writeAt hold data, rfl⟩

/-- A part of the text is written or held back; which of them cannot be seen in the text. -/
theorem Drafted.append (h : Drafted r w old d text w₁) (name : Option Bytes) (data : Bytes) :
    ∃ offset held w₂, (r.append name data d : StateM World _).run w₁ =
        (.ok { d with offset := offset, held := held }, w₂) ∧
      d.offset ≤ offset ∧ Drafted r w old { d with offset := offset, held := held } (text ++ data) w₂ := by
  obtain ⟨s, hs, hoffset, rfl⟩ := h
  unfold append
  dsimp only
  split
  · exact ⟨d.offset, d.held ++ data, w₁, rfl, Nat.le_refl _, s, hs, hoffset, List.append_assoc _ _ _⟩
  · refine ⟨d.offset + (d.held ++ data).length, [], _, World.run_bind_eq_iff.2 ⟨none, _, ?_, rfl⟩,
      Nat.le_add_right _ _, s ++ (d.held ++ data), .text _, ?_, ?_⟩
    · rw [hoffset]
      exact run_extend hopen hold hs _
    · change d.offset + _ = _
      rw [hoffset, ← List.length_append]
    · rw [List.append_nil, List.append_assoc]

/-- **An entry is begun** unless its name is too long. -/
theorem Drafted.begin (h : Drafted r w old d text w₁) (name : Bytes) :
    (Archive.maxName < name.length ∧ ∃ e w₂, (r.begin name d : StateM World _).run w₁ = (.error e, w₂)) ∨
      (name.length ≤ Archive.maxName ∧ ∃ offset held w₂, (r.begin name d : StateM World _).run w₁ =
          (.ok { d with offset := offset, held := held, rest := [] }, w₂) ∧ d.offset ≤ offset ∧
        Drafted r w old { d with offset := offset, held := held, rest := [] }
          (text ++ d.rest ++ Archive.fileHeader name) w₂) := by
  obtain ⟨offset, held, w₂, hrun, hoffset, hrest⟩ := h.append hopen hold (some name) d.rest
  by_cases hlong : Archive.maxName < name.length
  · refine .inl ⟨hlong, adding (some name) Archive.Error.nameTooLong.message, w₂,
      World.run_bind_eq_iff.2 ⟨_, _, hrun, ?_⟩⟩
    dsimp only
    rw [if_pos hlong]
    rfl
  · obtain ⟨offset', held', w₃, hrun', hoffset', hheader⟩ := Drafted.append hopen hold
      (d := { d with offset := offset, held := held, rest := [] }) hrest (some name) (Archive.fileHeader name)
    refine .inr ⟨Nat.not_lt.1 hlong, offset', held', w₃, World.run_bind_eq_iff.2 ⟨_, _, hrun, ?_⟩,
      Nat.le_trans hoffset hoffset', hheader⟩
    dsimp only
    rw [if_neg hlong]
    exact hrun'

/-- **An entry is filled** unless it is a directory that is given content. -/
theorem Drafted.fill (h : Drafted r w old d text w₁) (e : Archive.Entry) :
    (e.isMisplaced = true ∧ ∃ message, (r.fill e d : StateM World _).run w₁ = (.error message, w₁)) ∨
      (e.isMisplaced = false ∧ ∃ offset held w₂, (r.fill e d : StateM World _).run w₁ =
          (.ok { d with offset := offset, held := held, done := d.done ++ [e.item], rest := e.item.late }, w₂) ∧
        Drafted r w old { d with offset := offset, held := held, done := d.done ++ [e.item], rest := e.item.late }
          (text ++ e.item.early) w₂) := by
  unfold Report.fill
  cases hplaced : e.isMisplaced with
  | true => exact .inl ⟨rfl, _, rfl⟩
  | false =>
      obtain ⟨offset, held, w₂, hrun, -, hearly⟩ := h.append hopen hold (some e.name) e.item.early
      exact .inr ⟨rfl, offset, held, w₂, World.run_bind_eq_iff.2 ⟨_, _, hrun, rfl⟩, hearly⟩

/-- **An entry** whose content is read when it has been begun.  `P` says what can be read, in view of the text
that has been written until then. -/
theorem Drafted.addEntry (h : Drafted r w old d text w₁) (name : Bytes)
    (content : StateM World (Except Files.Failure Bytes)) {P : Bytes → Bytes → Prop}
    (hmono : ∀ {s t data}, s <+: t → P s data → P t data) (hfirst : ∃ data, P text data)
    (hcontent : ∀ d₂ text₂ w₂, d.offset ≤ d₂.offset → text <+: text₂ → Drafted r w old d₂ text₂ w₂ →
      ∃ data, content.run w₂ = (.ok data, w₂) ∧ P text₂ data) :
    ∃ data text', text <+: text' ∧ P text' data ∧
      ((Archive.Entry.refusal? ⟨name, data⟩ ≠ none ∧
        ∃ e w', (r.addEntry name content d : StateM World _).run w₁ = (.error e, w')) ∨
      (Archive.Entry.refusal? ⟨name, data⟩ = none ∧
        ∃ d' w', (r.addEntry name content d : StateM World _).run w₁ = (.ok (data, d'), w') ∧
          Drafted r w old d' text' w' ∧ Adds d text [⟨name, data⟩] d' text' ∧ d'.manifest = d.manifest)) := by
  rcases h.begin hopen hold name with ⟨hlong, e, w₂, hbegin⟩ | ⟨hshort, offset, held, w₂, hbegin, hoffset, hheader⟩
  · obtain ⟨data, hdata⟩ := hfirst
    refine ⟨data, text, List.prefix_rfl, hdata, .inl ⟨fun hnone => ?_, e, w₂,
      World.run_bind_eq_iff.2 ⟨_, _, hbegin, rfl⟩⟩⟩
    exact Nat.not_le.2 hlong (Archive.Entry.refusal?_eq_none_iff.1 hnone).1
  · have hbegins : text <+: text ++ d.rest ++ Archive.fileHeader name := by
      rw [List.append_assoc]
      exact List.prefix_append _ _
    obtain ⟨data, hread, hdata⟩ := hcontent _ _ w₂ hoffset hbegins hheader
    rcases hheader.fill hopen hold ⟨name, data⟩ with ⟨hplaced, e, hfill⟩ | ⟨hplaced, offset', held', w₃, hfill, hearly⟩
    · refine ⟨data, _, hbegins, hdata, .inl ⟨fun hnone => ?_, e, w₂, World.run_bind_eq_iff.2 ⟨_, _, hbegin,
        World.run_bind_eq_iff.2 ⟨_, _, hread, World.run_bind_eq_iff.2 ⟨_, _, hfill, rfl⟩⟩⟩⟩⟩
      rw [(Archive.Entry.refusal?_eq_none_iff.1 hnone).2] at hplaced
      cases hplaced
    · refine ⟨data, _, hbegins.trans (List.prefix_append _ _), hmono (List.prefix_append _ _) hdata,
        .inr ⟨Archive.Entry.refusal?_eq_none_iff.2 ⟨hshort, hplaced⟩, _, w₃, World.run_bind_eq_iff.2 ⟨_, _, hbegin,
          World.run_bind_eq_iff.2 ⟨_, _, hread, World.run_bind_eq_iff.2 ⟨_, _, hfill, rfl⟩⟩⟩, hearly, ⟨rfl, ?_⟩, rfl⟩⟩
      rw [List.map_singleton, List.flatMap_singleton, Archive.Item.text_eq, Archive.Entry.fileHeader_item]
      simp only [List.append_assoc]

/-- An item of which there is an entry, with the way in which its content tells what has become of it. -/
theorem Drafted.addItem_of_entry (h : Drafted r w old d text w₁) {name : Bytes} {i : Item} (told : Bytes → Outcome)
    (htold : ∀ data, (told data).entries name = [⟨name, data⟩])
    (content : StateM World (Except Files.Failure Bytes))
    (hitem : ∀ x w', (r.addEntry name content d : StateM World _).run w₁ = (x, w') →
      (r.addItem name i d : StateM World _).run w₁ = (x.map (Prod.map told id), w'))
    (hfirst : ∃ data, i.Becomes w.disk r.place old text (told data))
    (hcontent : ∀ d₂ text₂ w₂, d.offset ≤ d₂.offset → text <+: text₂ → Drafted r w old d₂ text₂ w₂ →
      ∃ data, content.run w₂ = (.ok data, w₂) ∧ i.Becomes w.disk r.place old text₂ (told data)) :
    Takes r w old d text w₁ name i := by
  obtain ⟨data, text', htext, hdata, hdone⟩ := h.addEntry hopen hold name content
    (P := fun t data => i.Becomes w.disk r.place old t (told data)) (fun hst hs => hs.mono hst) hfirst hcontent
  refine ⟨told data, text', htext, hdata, ?_⟩
  rw [htold, List.forall_mem_singleton]
  rcases hdone with ⟨hrefused, e, w', hrun⟩ | ⟨hwritten, d', w', hrun, hdraft⟩
  · exact .inl ⟨hrefused, e, w', hitem _ _ hrun⟩
  · exact .inr ⟨hwritten, d', w', hitem _ _ hrun, hdraft⟩

/-- Data is added as it is. -/
theorem Drafted.addItem_data (h : Drafted r w old d text w₁) (name : Bytes) {i : Item} (horigin : i.origin = []) :
    Takes r w old d text w₁ name i := by
  have hdata : i.found w.disk = .data i.data := by
    rw [Item.found, horigin]
    rfl
  have hbecomes : ∀ t, i.Becomes w.disk r.place old t (.data i.data) := by
    intro t
    rw [← hdata]
    exact .found fun hown => hown.1 horigin
  refine h.addItem_of_entry hopen hold .data (fun _ => rfl) (pure (.ok i.data)) ?_ ⟨_, hbecomes text⟩ ?_
  · intro x w' hrun
    unfold Report.addItem
    rw [horigin]
    exact World.run_bind_eq_iff.2 ⟨x, w', hrun, rfl⟩
  · exact fun _ text₂ w₂ _ _ _ => ⟨i.data, rfl, hbecomes text₂⟩

/-- The report finds itself as far as it has been written; it may be longer when it is copied. -/
theorem Drafted.addItem_own (h : Drafted r w old d text w₁) (name : Bytes) {i : Item} (hown : i.IsOwn w.disk r.place) :
    Takes r w old d text w₁ name i := by
  obtain ⟨s, hs, hoffset, htext⟩ := id h
  obtain ⟨horigin, n, hplace⟩ := id hown
  have hbegins : s <+: text := htext ▸ List.prefix_append _ _
  refine h.addItem_of_entry hopen hold (.file (Disk.overlay old 0 s).length) (fun _ => rfl) _
    (run_addItem_file horigin (hs.stat_of_locate hold hplace)) ⟨_, .own hown List.prefix_rfl hbegins⟩ ?_
  intro d₂ text₂ w₂ hlater hgrown hdraft
  obtain ⟨t, ht, hoffset₂, htext₂⟩ := hdraft
  have hbegins₂ : t <+: text₂ := htext₂ ▸ List.prefix_append _ _
  have hst : s <+: t := by
    refine List.prefix_of_prefix_length_le (hbegins.trans hgrown) hbegins₂ ?_
    rwa [← hoffset, ← hoffset₂]
  exact ⟨_, congrArg (·, w₂) (Disk.read_of_stat (ht.stat_of_locate hold hplace)), .own hown hst hbegins₂⟩

/-- What is written to the report cannot be seen in another file. -/
theorem Drafted.addItem_other (h : Drafted r w old d text w₁) (name : Bytes) {i : Item} (horigin : i.origin ≠ [])
    (hown : ¬ i.IsOwn w.disk r.place) : Takes r w old d text w₁ name i := by
  have hother : ∀ n, w.disk.locate true i.path ≠ .ok (.taken r.place n) :=
    fun n hplace => hown ⟨horigin, n, hplace⟩
  have hstat : ∀ {d₂ text₂ w₂}, Drafted r w old d₂ text₂ w₂ → ∀ {n},
      w₂.disk.stat i.path = .ok n ↔ w.disk.stat i.path = .ok n := by
    rintro d₂ text₂ w₂ ⟨t, ht, -, -⟩ n
    exact ht.stat_iff hold hother
  by_cases hthere : ∃ data, w.disk.stat i.path = .ok (.file data)
  · obtain ⟨data, hdata⟩ := hthere
    have hbecomes : ∀ t, i.Becomes w.disk r.place old t (.file data.length data) := by
      intro t
      rw [← Item.found_of_stat horigin hdata]
      exact .found hown
    refine h.addItem_of_entry hopen hold (.file data.length) (fun _ => rfl) _
      (run_addItem_file horigin ((hstat h).2 hdata)) ⟨_, hbecomes text⟩ fun d₂ text₂ w₂ _ _ hdraft => ?_
    exact ⟨data, congrArg (·, w₂) (Disk.read_of_stat ((hstat hdraft).2 hdata)), hbecomes text₂⟩
  · have hfound : i.found w.disk = .missing := Item.found_of_forall_ne horigin fun data hdata => hthere ⟨data, hdata⟩
    refine ⟨.missing, text, List.prefix_rfl, hfound ▸ .found hown, .inr ⟨fun e he => ?_, d, w₁, ?_, h,
      ⟨(List.append_nil _).symm, (List.append_nil _).symm⟩, rfl⟩⟩
    · cases he
    · exact run_addItem_missing horigin fun data hdata => hthere ⟨data, (hstat h).1 hdata⟩

/-- **An item** is added as it is then, or left out where there is no file. -/
theorem Drafted.addItem (h : Drafted r w old d text w₁) (name : Bytes) (i : Item) :
    Takes r w old d text w₁ name i := by
  by_cases horigin : i.origin = []
  · exact h.addItem_data hopen hold name horigin
  · by_cases hown : i.IsOwn w.disk r.place
    · exact h.addItem_own hopen hold name hown
    · exact h.addItem_other hopen hold name horigin hown

/-- **All items**, one after the other.  What becomes of those behind one that cannot be written is left
open. -/
theorem Drafted.addItems (h : Drafted r w old d text w₁) (is : List (Bytes × Item)) :
    ∃ os text', text <+: text' ∧
      List.Forall₂ (fun p o => Item.Becomes w.disk r.place old text' p.2 o) is os ∧
      ((¬ (∀ e ∈ entries is os, e.refusal? = none) ∧
        ∃ e w', (r.addItems is d : StateM World _).run w₁ = (.error e, w')) ∨
      ((∀ e ∈ entries is os, e.refusal? = none) ∧
        ∃ d' w', (r.addItems is d : StateM World _).run w₁ = (.ok d', w') ∧
          Drafted r w old d' text' w' ∧ Adds d text (entries is os) d' text' ∧
          d'.manifest = d.manifest ++ manifest is os)) := by
  induction is generalizing d text w₁ with
  | nil =>
      refine ⟨[], text, List.prefix_rfl, .nil, .inr ⟨fun e he => ?_, d, w₁, rfl, h,
        ⟨(List.append_nil _).symm, (List.append_nil _).symm⟩, (List.append_nil _).symm⟩⟩
      cases he
  | cons p is ih =>
      obtain ⟨name, i⟩ := p
      obtain ⟨o, text', htext, hbecomes, hadded⟩ := h.addItem hopen hold name i
      rcases hadded with ⟨hrefused, e, w', hrun⟩ | ⟨hwritten, d', w', hrun, hdraft, hadds, hmanifest⟩
      · obtain ⟨os, hos⟩ := exists_becomes w.disk r.place old text' is
        refine ⟨o :: os, text', htext, .cons hbecomes hos, .inl ⟨fun hall => hrefused fun e he => ?_, e, w',
          World.run_bind_eq_iff.2 ⟨_, _, hrun, rfl⟩⟩⟩
        exact hall e (List.mem_append_left _ he)
      · obtain ⟨os, text'', htext', hos, hdone⟩ :=
          ih (d := { d' with manifest := d'.manifest ++ manifestLine name i o }) hdraft
        refine ⟨o :: os, text'', htext.trans htext', .cons (hbecomes.mono htext') hos, ?_⟩
        rcases hdone with ⟨hrefused, e, w'', hrun'⟩ | ⟨hwritten', d'', w'', hrun', hdraft', hadds', hmanifest'⟩
        · refine .inl ⟨fun hall => hrefused fun e he => hall e (List.mem_append_right _ he), e, w'',
            World.run_bind_eq_iff.2 ⟨_, _, hrun, hrun'⟩⟩
        · refine .inr ⟨fun e he => ?_, d'', w'', World.run_bind_eq_iff.2 ⟨_, _, hrun, hrun'⟩, hdraft',
            hadds.trans ⟨hadds'.done, hadds'.text⟩, ?_⟩
          · exact (List.mem_append.1 he).elim (hwritten e) (hwritten' e)
          · rw [hmanifest', hmanifest, List.append_assoc]
            rfl

/-- At the end of the text it is all in the file. -/
theorem Drafted.finish (h : Drafted r w old d text w₁) :
    (r.finish d : StateM World _).run w₁ =
      (none, w.filed r.place (Disk.overlay old 0 (text ++ (d.rest ++ Archive.ending d.done)))) := by
  obtain ⟨offset, held, w₂, hrun, -, s, hs, hoffset, htext⟩ :=
    h.append hopen hold none (d.rest ++ Archive.ending d.done)
  dsimp only at hoffset htext
  refine World.run_bind_eq_iff.2 ⟨_, _, hrun, ?_⟩
  dsimp only
  rw [htext]
  cases held with
  | nil =>
      rw [List.append_nil] at htext ⊢
      cases hs with
      | nothing =>
          -- even an archive without entries has an end
          simp [Archive.ending, Archive.number] at htext
      | text => rfl
  | cons b held =>
      rw [List.isEmpty_cons, hoffset]
      exact run_extend hopen hold hs _

/-- **Closing** succeeds if every entry can be written, and then the archive has been written to the file from
its beginning on. -/
theorem run_close : ∃ text os,
    List.Forall₂ (fun p o => Item.Becomes w.disk r.place old text p.2 o) r.items os ∧
    (((r.close : StateM World _).run w).1.2 = none ↔ ∀ e ∈ archived r.items os, e.refusal? = none) ∧
    (((r.close : StateM World _).run w).1.2 = none →
      text = Archive.encode (archived r.items os) ∧
        ((r.close : StateM World _).run w).2 = w.filed r.place (Disk.overlay old 0 text)) := by
  have hstart : Drafted r w old {} [] w := ⟨[], .nothing, rfl, rfl⟩
  obtain ⟨os, text, -, hos, ⟨hrefused, e, w', hrun⟩ | ⟨hwritten, d, w₁, hrun, hdraft, hadds, hmanifest⟩⟩ :=
    hstart.addItems hopen hold r.items
  · have hclose : (r.close : StateM World _).run w = (({ r with isOpen := false }, some e), w') :=
      World.run_bind_eq_iff.2 ⟨_, _, World.run_bind_eq_iff.2 ⟨_, _, hrun, rfl⟩, rfl⟩
    have hfailed : ((r.close : StateM World _).run w).1.2 ≠ none := by
      rw [hclose]
      exact Option.some_ne_none e
    refine ⟨text, os, hos, iff_of_false hfailed fun hall => hrefused fun e he => ?_, fun h => absurd h hfailed⟩
    exact hall e (List.mem_append_left _ he)
  · obtain ⟨data, text', htext, rfl, ⟨hrefused, -⟩ | ⟨hnone, d', w₂, hrun', hdraft', hadds', -⟩⟩ :=
      hdraft.addEntry hopen hold "MANIFEST" (pure (.ok d.manifest))
        (P := fun _ data => data = manifest r.items os) (fun _ h => h) ⟨_, rfl⟩ fun _ _ _ _ _ _ => ⟨_, rfl, hmanifest⟩
    · have hshort : ("MANIFEST" : Bytes).length ≤ Archive.maxName := by decide
      exact absurd (Archive.Entry.refusal?_eq_none_iff.2 ⟨hshort, rfl⟩) hrefused
    · have hboth := hadds.trans hadds'
      have hall : text' ++ (d'.rest ++ Archive.ending d'.done) = Archive.encode (archived r.items os) := by
        rw [← List.append_assoc, hboth.text, hboth.done]
        rfl
      have hclose : (r.close : StateM World _).run w = (({ r with isOpen := false }, none),
          w.filed r.place (Disk.overlay old 0 (Archive.encode (archived r.items os)))) := by
        rw [← hall]
        refine World.run_bind_eq_iff.2 ⟨_, _, World.run_bind_eq_iff.2 ⟨_, _, hrun,
          World.run_bind_eq_iff.2 ⟨_, _, hrun', hdraft'.finish hopen hold⟩⟩, rfl⟩
      refine ⟨Archive.encode (archived r.items os), os, ?_, ?_, fun _ => ⟨rfl, ?_⟩⟩
      · refine hos.imp fun _ _ h => h.mono (htext.trans ?_)
        rw [← hall]
        exact List.prefix_append _ _
      · rw [hclose]
        refine iff_of_true rfl fun e he => ?_
        rcases List.mem_append.1 he with he | he
        · exact hwritten e he
        · rw [List.mem_singleton.1 he]
          exact hnone
      · rw [hclose]

end Parts

end Writing

end Report

end Restyle
