import Restyle.Proofs.Config.Loading
import Restyle.Proofs.Yaml.Records

/-!
# Written configurations

The file that a valid configuration is written to is an outline (`dump_eq`).  Laid over the default
configuration it gives the configuration with every value as it is read back, and with the default where
an empty one is left out (`decode_dump`), unless there is a value that cannot be read (`decode_broken`).
-/

namespace Restyle

namespace Yaml

open Printer

/-! ### Fields as lines -/

/-- The lines of entries stand behind each other. -/
theorem linesOf_append (level : Nat) (es es' : List Entry) :
    linesOf level (es ++ es') = linesOf level es ++ linesOf level es' := by
  induction es with
  | nil => rfl
  | cons e es ih => simp only [List.cons_append, linesOf, ih, List.append_assoc]

theorem linesOf_cons_cons (level : Nat) (e e' : Entry) (es : List Entry) :
    linesOf level (e :: e' :: es) = linesOf level [e] ++ linesOf level (e' :: es) :=
  linesOf_append level [e] (e' :: es)

theorem bytes_ne_nil (indent : Nat) (v : Bytes) : bytes indent v ≠ [] := by
  unfold bytes
  split
  · have hstyled := styled (Utf8.codePoints v)
    unfold text
    generalize style (Utf8.codePoints v) = style at hstyled
    cases hstyled with
    | plain hne => exact hne
    | single | double => exact List.cons_ne_nil _ _
    | literal =>
        obtain ⟨rest, hrest⟩ := Scanner.exists_literal indent (Utf8.codePoints v)
        simp [hrest]
  · simp

/-- A field with a value is written as a leaf. -/
theorem field_eq (level : Nat) (name : String) {value : List Char} (hne : value ≠ []) (content : Option Content) :
    field level name value = linesOf level [.leaf name.toList ⟨ended value, content⟩] := by
  rw [field, ended_append hne]
  simp [linesOf, Entry.body, margin, spaces]

/-- A text is written as the leaf that spells it. -/
theorem textField_eq (level : Nat) (name : String) (v : Bytes) :
    textField level name v = linesOf level [.leaf name.toList (leafOf (4 * (level + 1)) v)] :=
  field_eq level name (bytes_ne_nil _ v) _

/-- The entries of a text that is left out if it is empty. -/
def optionalLeaf (indent : Nat) (name : String) (v : Bytes) : List Entry :=
  if v.isEmpty then [] else [.leaf name.toList (leafOf indent v)]

/-- An optional text is written as a leaf, or not at all. -/
theorem optionalField_eq (level : Nat) (name : String) (v : Bytes) :
    optionalField level name v = linesOf level (optionalLeaf (4 * (level + 1)) name v) := by
  unfold optionalField optionalLeaf
  split
  · rfl
  · exact textField_eq level name v

/-- The word for a truth value. -/
def flagWord (b : Bool) : List Char :=
  (if b then "true" else "false").toList

/-- A truth value is written as its word. -/
theorem flagField_eq (level : Nat) (name : String) (b : Bool) :
    flagField level name b = linesOf level [.leaf name.toList (wordLeaf (flagWord b))] := by
  cases b with
  | false | true => exact field_eq level name (List.cons_ne_nil _ _) _

/-- A list of texts is written as a list of leaves. -/
theorem listField_eq (level : Nat) (name : String) {vs : List Bytes} (hne : vs ≠ []) :
    listField level name vs = linesOf level [.list name.toList (vs.map (leafOf (4 * (level + 1) + 2)))] := by
  have hitems : (vs.flatMap fun v => ended (margin (level + 1) ++ ['-', ' '] ++ bytes (4 * (level + 1) + 2) v)) =
      itemLines (level + 1) (vs.map (leafOf (4 * (level + 1) + 2))) := by
    rw [itemLines, List.flatMap_map]
    congr 1
    funext v
    rw [ended_append (bytes_ne_nil _ v)]
    simp [leafOf, margin, spaces]
  rw [listField, if_neg (by simpa using hne), hitems]
  simp [head, linesOf, Entry.body, margin, spaces]

/-- Lines below a head are those of one entry. -/
theorem head_append (level : Nat) (name : String) (entries : List Entry) :
    head level name ++ linesOf (level + 1) entries = linesOf level [.block name.toList entries] := by
  simp [head, linesOf, Entry.body, margin, spaces]

end Yaml

namespace Config

open Yaml Scanner

/-! ### The outline of a configuration -/

/-- The entry of a logger. -/
def Logger.outline (name : String) (c : Logger) : Entry :=
  .block name.toList (.leaf "level".toList (leafOf 12 c.level) ::
    (optionalLeaf 12 "destination" c.destination ++ optionalLeaf 12 "mode" c.mode))

/-- The entries of a configuration. -/
def outline (c : Config) : List Entry := [
  .leaf "version".toList (wordLeaf ['1']),
  .block "pipeline".toList [.list "steps".toList (c.pipeline.steps.map (leafOf 10))],
  .block "input".toList [.list "extensions".toList (c.input.extensions.map (leafOf 10)),
    .leaf "code_page".toList (leafOf 8 c.input.codePage)],
  .block "output".toList [.leaf "suffix".toList (leafOf 8 c.output.suffix),
    .leaf "overwrite".toList (wordLeaf (flagWord c.output.overwrite)),
    .leaf "transliterate".toList (wordLeaf (flagWord c.output.transliterate))],
  .block "logging".toList [c.logging.file.outline "file", c.logging.console.outline "console"],
  .block "reporting".toList [.leaf "destination".toList (leafOf 8 c.reporting.destination)]]

/-- A logger is written as its entry. -/
theorem Logger.lines_eq (name : String) (c : Logger) : c.lines 1 name = linesOf 1 [c.outline name] := by
  rw [Logger.lines, textField_eq, optionalField_eq, optionalField_eq, Logger.outline, ← head_append,
    List.append_assoc, List.append_assoc, ← linesOf_append, ← linesOf_append]
  rfl

/-- **A valid configuration is written as its outline.** -/
theorem dump_eq {c : Config} {isFile : Destinations} (h : c.Valid isFile) :
    c.dump = Utf8.encode (linesOf 0 c.outline) := by
  have hversion : Printer.field 0 "version" (if c.version < 0 then '-' :: Nat.toDigits 10 c.version.natAbs
      else Nat.toDigits 10 c.version.natAbs) = linesOf 0 [.leaf "version".toList (wordLeaf ['1'])] := by
    rw [h.version]
    rfl
  rw [dump, hversion, listField_eq 1 _ h.steps_ne_nil, listField_eq 1 _ h.extensions_ne_nil, textField_eq,
    textField_eq, flagField_eq, flagField_eq, Logger.lines_eq, Logger.lines_eq, textField_eq]
  simp only [outline, linesOf_cons_cons, ← head_append, List.append_assoc, Nat.zero_add]

/-! ### Its lines can be read -/

/-- The value begins with a visible character of one byte. -/
def Begins (v : Bytes) : Prop :=
  ∃ b ∈ v.head?, 0x20 < b.toNat ∧ b.toNat < 0x80

/-- A text that begins so has no blank and no line end at its beginning. -/
theorem Begins.head {v : Bytes} (h : Begins v) :
    ∀ c ∈ (Utf8.codePoints v).head?, c ≠ '\t' ∧ Printer.isSpace c = false ∧ Printer.endsLine c = false := by
  obtain ⟨b, hb, hlow, hhigh⟩ := h
  obtain ⟨v, rfl⟩ := List.head?_eq_some_iff.1 hb
  intro c hc
  rw [Utf8.head?_codePoints hhigh] at hc
  obtain rfl := Option.some.inj hc
  have hnat : (Char.ofNat b.toNat).toNat = b.toNat := Utf8.toNat_ofNat (.inl (by omega))
  have hne : ∀ x : Char, x.toNat ≤ 0x20 ∨ 0x80 ≤ x.toNat → Char.ofNat b.toNat ≠ x := by
    rintro _ hx rfl
    omega
  simp [Printer.isSpace, Printer.endsLine, isBreak, hne '\t' (by decide), hne ' ' (by decide),
    hne '\n' (by decide), hne '\r' (by decide), hne '\u2028' (by decide), hne '\u2029' (by decide),
    hne '\u0085' (by decide)]

/-- A text that begins so needs no hint of its indentation. -/
theorem Begins.hinted {v : Bytes} (h : Begins v) : hinted (Utf8.codePoints v) = false := by
  unfold Yaml.hinted
  cases hhead : (Utf8.codePoints v).head? with
  | none => rfl
  | some c =>
      obtain ⟨-, hspace, hends⟩ := h.head c hhead
      simp [hspace, hends]

/-- Nothing of its beginning is lost. -/
theorem Begins.keeps {v : Bytes} (h : Begins v) : losesStart v = false := by
  unfold losesStart
  cases hhead : (Utf8.codePoints v).head? with
  | none => simp
  | some c =>
      obtain ⟨htab, -, hends⟩ := h.head c hhead
      simp [htab, hends]

/-- A text that is one of some words begins as they do. -/
theorem begins_word {words : List String} (hwords : ∀ w ∈ words, Begins (w : Bytes)) {v : Bytes}
    (h : ∃ w ∈ words, (w : Bytes) = v) : Begins v := by
  obtain ⟨w, hw, rfl⟩ := h
  exact hwords w hw

instance (v : Bytes) : Decidable (Begins v) :=
  match v with
  | [] => .isFalse fun ⟨_, h, _⟩ => by cases h
  | b :: _ => decidable_of_iff (0x20 < b.toNat ∧ b.toNat < 0x80) (by simp [Begins])

section

variable {c : Config} {isFile : Destinations}

/-- The names of steps begin so. -/
theorem Valid.begins_step (h : c.Valid isFile) : ∀ v ∈ c.pipeline.steps, Begins v := by
  intro v hv
  obtain ⟨s, rfl⟩ := h.steps v hv
  cases s <;> decide

/-- Extensions do, since they begin with a dot. -/
theorem Valid.begins_extension (h : c.Valid isFile) : ∀ v ∈ c.input.extensions, Begins v :=
  fun v hv => ⟨Path.dot, h.extensions v hv, by decide⟩

theorem Logger.Valid.begins_level {c : Logger} {isFile : Bool} (h : c.Valid isFile) : Begins c.level :=
  begins_word (by decide) h.level

theorem Logger.Valid.begins_mode {c : Logger} {isFile : Bool} (h : c.Valid isFile) : c.mode = [] ∨ Begins c.mode :=
  h.mode.imp_right (begins_word (by decide))

end

/-- A text that begins so can be written as an item of a list. -/
theorem item_written {v : Bytes} (h : Begins v) : (leafOf 10 v).Written 8 ∧ (leafOf 10 v).content ≠ none := by
  refine ⟨leafOf_written (by decide) fun _ hhint => ?_, bytesContent_ne_none h.keeps⟩
  rw [h.hinted] at hhint
  cases hhint

/-- Any text can be written as a leaf. -/
theorem leaf_written (level : Nat) (v : Bytes) : (leafOf (4 * (level + 1)) v).Written (4 * level) :=
  leafOf_written (by omega) fun _ _ => by omega

theorem flag_written (b : Bool) (parent : Nat) : (wordLeaf (flagWord b)).Written parent := by
  cases b with
  | false | true => exact wordLeaf_written (by decide) (by decide) parent

/-- The entry of a logger can be written. -/
theorem Logger.outline_written {name : String} (hname : IsKey name.toList) (c : Logger) :
    (c.outline name).Written 1 := by
  have hoptional : ∀ {name : String}, IsKey name.toList → ∀ v es, WrittenAll 2 es →
      WrittenAll 2 (optionalLeaf 12 name v ++ es) := by
    intro name hname v es hes
    unfold optionalLeaf
    split
    · exact hes
    · exact ⟨⟨hname, leaf_written 2 v⟩, hes⟩
  refine ⟨hname, List.cons_ne_nil _ _, ⟨by decide, leaf_written 2 _⟩, hoptional (by decide) _ _ ?_⟩
  have := hoptional (show IsKey "mode".toList by decide) c.mode [] trivial
  rwa [List.append_nil] at this

/-- **Every value is read as it is written.** -/
theorem outline_written {c : Config} {isFile : Destinations} (h : c.Valid isFile) : WrittenAll 0 c.outline := by
  have hitems : ∀ {vs : List Bytes}, (∀ v ∈ vs, Begins v) → ∀ l ∈ vs.map (leafOf 10),
      l.Written (4 * (1 + 1)) ∧ l.content ≠ none := by
    intro vs hvs l hl
    obtain ⟨v, hv, rfl⟩ := List.mem_map.1 hl
    exact item_written (hvs v hv)
  refine ⟨⟨by decide, wordLeaf_written (by decide) (by decide) _⟩,
    ⟨by decide, List.cons_ne_nil _ _, ⟨by decide, ?_, hitems h.begins_step⟩, trivial⟩,
    ⟨by decide, List.cons_ne_nil _ _, ⟨by decide, ?_, hitems h.begins_extension⟩, ⟨by decide, leaf_written 1 _⟩, trivial⟩,
    ⟨by decide, List.cons_ne_nil _ _, ⟨by decide, leaf_written 1 _⟩, ⟨by decide, flag_written _ _⟩,
      ⟨by decide, flag_written _ _⟩, trivial⟩,
    ⟨by decide, List.cons_ne_nil _ _, Logger.outline_written (by decide) _, Logger.outline_written (by decide) _,
      trivial⟩,
    ⟨by decide, List.cons_ne_nil _ _, ⟨by decide, leaf_written 1 _⟩, trivial⟩, trivial⟩
  · simpa using h.steps_ne_nil
  · simpa using h.extensions_ne_nil

/-! ### Its values are read back -/

/-- A logger as it is read back: what is empty is left out of the file. -/
def Logger.reread (c base : Logger) : Logger where
  level := readBack c.level
  destination := if c.destination.isEmpty then base.destination else readBack c.destination
  mode := if c.mode.isEmpty then base.mode else readBack c.mode

/-- A configuration as it is read back. -/
def reread (c : Config) : Config where
  version := 1
  pipeline := ⟨c.pipeline.steps.map readBack⟩
  input := ⟨c.input.extensions.map readBack, readBack c.input.codePage⟩
  output := ⟨readBack c.output.suffix, c.output.overwrite, c.output.transliterate⟩
  logging := ⟨c.logging.file.reread default.logging.file, c.logging.console.reread default.logging.console⟩
  reporting := ⟨readBack c.reporting.destination⟩

section

variable {α : Type} {r : Record α} {a b : α} {name : String} {es : List Entry}

/-- A text fills its field with what is read back of it. -/
theorem fills_text (indent : Nat) (v : Bytes) {set : α → Bytes → α} (hname : IsFieldName name.toList)
    (hf : .text name set ∈ r.fields)
    (h : r.Fills (set a (readBack v)) es b) : r.Fills a (.leaf name.toList (leafOf indent v) :: es) b :=
  .cons hname hf rfl (fun _ hp issues => Field.read_text hp.2 set issues) h

/-- A text that was left out fills nothing. -/
theorem fills_optional (indent : Nat) (v : Bytes) {set : α → Bytes → α} (hname : IsFieldName name.toList)
    (hf : .text name set ∈ r.fields)
    (h : r.Fills (if v.isEmpty then a else set a (readBack v)) es b) :
    r.Fills a (optionalLeaf indent name v ++ es) b := by
  unfold optionalLeaf
  split at h
  · next hnil =>
      rw [if_pos hnil]
      exact h
  · next hne =>
      rw [if_neg hne]
      exact fills_text indent v hname hf h

/-- A truth value fills its field. -/
theorem fills_flag (value : Bool) {set : α → Bool → α} (hname : IsFieldName name.toList)
    (hf : .flag name set ∈ r.fields)
    (h : r.Fills (set a value) es b) : r.Fills a (.leaf name.toList (wordLeaf (flagWord value)) :: es) b :=
  .cons hname hf rfl (fun _ hp issues => Field.read_flag hp.2 set issues) h

/-- A list fills its field with what is read back of its items. -/
theorem fills_texts (indent : Nat) (vs : List Bytes) {set : α → List Bytes → α} (hname : IsFieldName name.toList)
    (hf : .texts name set ∈ r.fields)
    (h : r.Fills (set a (vs.map readBack)) es b) :
    r.Fills a (.list name.toList (vs.map (leafOf indent)) :: es) b := by
  refine .cons hname hf rfl ?_ h
  rintro ⟨k, v⟩ ⟨-, line, ns, rfl, hns⟩ issues
  exact Field.read_texts hns set issues

/-- An entry with entries below it fills the record of its field. -/
theorem fills_record {β : Type} {r' : Record β} {depth : Nat} {get : α → β} {set : α → β → α} {entries : List Entry}
    {value : β} (hname : IsFieldName name.toList) (hf : .record name r' (depth + 1) get set ∈ r.fields)
    (hr : r'.Distinct) (hfills : r'.Fills (get a) entries value) (hnames : (entries.map Entry.name).Nodup)
    (h : r.Fills (set a value) es b) : r.Fills a (.block name.toList entries :: es) b := by
  refine .cons hname hf rfl ?_ h
  rintro ⟨k, v⟩ ⟨-, line, pairs, rfl, hpairs⟩ issues
  exact Field.read_record hr hfills hnames hpairs set issues

end

/-- **The entry of a logger** fills a logger with what is read back of its fields. -/
theorem Logger.fills (base c : Logger) : Logger.record.Fills base
    (.leaf "level".toList (leafOf 12 c.level) ::
      (optionalLeaf 12 "destination" c.destination ++ optionalLeaf 12 "mode" c.mode)) (c.reread base) := by
  refine fills_text 12 _ (by decide) (.head _) (fills_optional 12 _ (by decide) (.tail _ (.head _)) ?_)
  rw [← List.append_nil (optionalLeaf 12 "mode" c.mode)]
  refine fills_optional 12 _ (by decide) (.tail _ (.tail _ (.head _))) (.of_eq ?_)
  unfold reread
  split <;> split <;> rfl

/-- No field of a logger is written twice. -/
theorem Logger.nodup_names (c : Logger) : ((Entry.leaf "level".toList (leafOf 12 c.level) ::
    (optionalLeaf 12 "destination" c.destination ++ optionalLeaf 12 "mode" c.mode)).map Entry.name).Nodup := by
  have hnames : ∀ names ∈ [["level".toList], ["level".toList, "mode".toList], ["level".toList, "destination".toList],
      ["level".toList, "destination".toList, "mode".toList]], names.Nodup := by decide
  unfold optionalLeaf
  split <;> split <;> exact hnames _ (by simp [Entry.name])

/-- No two fields of a record have one name. -/
theorem Logging.distinct (depth : Nat) : (Logging.record depth).Distinct :=
  show ["file", "console"].Nodup by decide

theorem distinct (depth : Nat) : (record depth).Distinct :=
  show ["version", "pipeline", "input", "output", "logging", "reporting"].Nodup by decide

/-- **A written configuration is read back** value by value. -/
theorem outline_fills (c : Config) (depth : Nat) : (record (depth + 1)).Fills default c.outline c.reread := by
  have hversion : ∀ p : Node × Node, (Entry.leaf "version".toList (wordLeaf ['1'])).Shows p → ∀ issues,
      ((Field.integer "version" fun (c : Config) v => { c with version := v }).read default p.2).run issues =
        some ({ default with version := 1 }, issues) := by
    rintro ⟨k, v⟩ ⟨-, content, line, hcontent, rfl⟩ issues
    obtain rfl := Option.some.inj hcontent
    rfl
  have hpipeline : Pipeline.record.Fills default.pipeline [.list "steps".toList (c.pipeline.steps.map (leafOf 10))]
      c.reread.pipeline :=
    fills_texts 10 _ (by decide) (.head _) (.nil _)
  have hinput : Input.record.Fills default.input [.list "extensions".toList (c.input.extensions.map (leafOf 10)),
      .leaf "code_page".toList (leafOf 8 c.input.codePage)] c.reread.input :=
    fills_texts 10 _ (by decide) (.head _) (fills_text 8 _ (by decide) (.tail _ (.head _)) (.nil _))
  have houtput : Output.record.Fills default.output [.leaf "suffix".toList (leafOf 8 c.output.suffix),
      .leaf "overwrite".toList (wordLeaf (flagWord c.output.overwrite)),
      .leaf "transliterate".toList (wordLeaf (flagWord c.output.transliterate))] c.reread.output :=
    fills_text 8 _ (by decide) (.head _) (fills_flag _ (by decide) (.tail _ (.head _))
      (fills_flag _ (by decide) (.tail _ (.tail _ (.head _))) (.nil _)))
  have hlogging : (Logging.record (depth + 1)).Fills default.logging
      [c.logging.file.outline "file", c.logging.console.outline "console"] c.reread.logging :=
    fills_record (by decide) (.head _) (by decide) (Logger.fills _ _) (Logger.nodup_names _)
      (fills_record (by decide) (.tail _ (.head _)) (by decide) (Logger.fills _ _) (Logger.nodup_names _) (.nil _))
  have hreporting : Reporting.record.Fills default.reporting
      [.leaf "destination".toList (leafOf 8 c.reporting.destination)] c.reread.reporting :=
    fills_text 8 _ (by decide) (.head _) (.nil _)
  refine .cons (by decide) (.head _) rfl hversion (fills_record (by decide) (.tail _ (.head _)) (by decide) hpipeline
    (by simp) ?_)
  refine fills_record (by decide) (.tail _ (.tail _ (.head _))) (by decide) hinput (by simp [Entry.name]) ?_
  refine fills_record (by decide) (.tail _ (.tail _ (.tail _ (.head _)))) (by decide) houtput (by simp [Entry.name]) ?_
  refine fills_record (by decide) (.tail _ (.tail _ (.tail _ (.tail _ (.head _))))) (Logging.distinct _) hlogging
    (by simp [Logger.outline, Entry.name]) ?_
  exact fills_record (by decide) (.tail _ (.tail _ (.tail _ (.tail _ (.tail _ (.head _)))))) (by decide) hreporting
    (by simp) (.nil _)

/-- The values of a configuration that a check leaves free to begin in any way. -/
def freeTexts (c : Config) : List Bytes :=
  [c.input.codePage, c.output.suffix, c.logging.file.destination, c.logging.console.destination,
    c.reporting.destination]

section

variable {c : Config} {isFile : Destinations}

/-- Entries are good if those of both parts are. -/
theorem goodAll_append {es es' : List Entry} : GoodAll (es ++ es') ↔ GoodAll es ∧ GoodAll es' := by
  induction es with
  | nil => simp [GoodAll]
  | cons e es ih => simp [GoodAll, ih, and_assoc]

/-- An optional text can be read if its text can; an empty one always can. -/
theorem good_optionalLeaf {indent : Nat} {name : String} {v : Bytes} :
    GoodAll (optionalLeaf indent name v) ↔ bytesContent v ≠ none := by
  cases v with
  | nil => exact ⟨fun _ => bytesContent_ne_none (by decide), fun _ => trivial⟩
  | cons b v => simp [optionalLeaf, GoodAll, Entry.Good, leafOf]

/-- A valid logger can be read back if its destination can. -/
theorem Logger.good_outline {c : Logger} {isFile : Bool} (h : c.Valid isFile) {name : String} :
    (c.outline name).Good ↔ bytesContent c.destination ≠ none := by
  have hlevel := bytesContent_ne_none h.begins_level.keeps
  have hmode : bytesContent c.mode ≠ none := by
    rcases h.begins_mode with hnil | hbegins
    · rw [hnil]
      exact bytesContent_ne_none (by decide)
    · exact bytesContent_ne_none hbegins.keeps
  simp [outline, Entry.Good, GoodAll, goodAll_append, good_optionalLeaf, leafOf, hlevel, hmode]

/-- **A valid configuration can be read back** if its free texts can. -/
theorem good_outline (h : c.Valid isFile) : GoodAll c.outline ↔ ∀ v ∈ c.freeTexts, bytesContent v ≠ none := by
  simp [outline, freeTexts, Entry.Good, GoodAll, Logger.good_outline h.file, Logger.good_outline h.console, leafOf,
    wordLeaf, and_assoc]

/-- **What is read of a written configuration.** -/
theorem decode_dump_eq_ok_iff (h : c.Valid isFile) {c' : Config} :
    default.decode c.dump = .ok c' ↔ (∀ v ∈ c.freeTexts, bytesContent v ≠ none) ∧ c.reread = c' := by
  rw [← good_outline h]
  have hne : c.outline ≠ [] := List.cons_ne_nil _ _
  have hnames : (c.outline.map Entry.name).Nodup := by simp [outline, Entry.name]
  by_cases hgood : GoodAll c.outline
  · obtain ⟨line, pairs, hshow, hparse⟩ := parse_linesOf hne (outline_written h) hgood
    rw [← dump_eq h] at hparse
    have hread : ((record (c.dump.length + 1)).read (c.dump.length + 1) default (.mapping line none pairs)).run [] =
        some (c.reread, []) :=
      Record.read_fills (distinct _) (outline_fills c _) hnames hshow _ []
    simp [decode, hparse, hread, hgood]
  · obtain ⟨found, hbreaks⟩ := (good_or_breaks c.outline).resolve_left hgood
    have hparse := parse_broken (outline_written h) hbreaks
    rw [← dump_eq h] at hparse
    simp [decode, hparse, hgood]

theorem keeps_of_begins {v : Bytes} (h : v = [] ∨ Begins v) : losesStart v = false := by
  rcases h with rfl | h
  · decide
  · exact h.keeps

/-- Texts that begin so are read back as they are. -/
theorem map_readBack {vs : List Bytes} (h : ∀ v ∈ vs, Begins v) : vs.map readBack = vs :=
  (List.map_congr_left fun v hv => readBack_eq (h v hv).keeps).trans (List.map_id vs)

/-- A logger with what it leaves empty as it is in another. -/
def Logger.filled (c base : Logger) : Logger where
  level := c.level
  destination := if c.destination.isEmpty then base.destination else c.destination
  mode := if c.mode.isEmpty then base.mode else c.mode

/-- A configuration whose loggers have their defaults for what they leave empty. -/
def filled (c : Config) : Config :=
  { c with logging :=
      ⟨c.logging.file.filled default.logging.file, c.logging.console.filled default.logging.console⟩ }

/-- A logger comes back as it is, with what it leaves open filled in. -/
theorem Logger.reread_eq {c base : Logger} {isFile : Bool} (h : c.Valid isFile)
    (hkeeps : losesStart c.destination = false) : c.reread base = c.filled base := by
  rw [reread, filled, readBack_eq h.begins_level.keeps, readBack_eq hkeeps, readBack_eq (keeps_of_begins h.begins_mode)]

/-- **A written configuration is read back with the defaults of its loggers**, if its values keep their start. -/
theorem reread_eq (h : c.Valid isFile) (hkeeps : ∀ v ∈ c.freeTexts, losesStart v = false) : c.reread = c.filled := by
  simp only [freeTexts, List.forall_mem_cons] at hkeeps
  obtain ⟨hpage, hsuffix, hfile, hconsole, hreport, -⟩ := hkeeps
  rw [reread, filled, map_readBack h.begins_step, map_readBack h.begins_extension, readBack_eq hpage,
    readBack_eq hsuffix, Logger.reread_eq h.file hfile, Logger.reread_eq h.console hconsole, readBack_eq hreport,
    ← h.version]

/-- **A configuration is decoded from its dump** with what it leaves open filled in, if no free text loses its
start. -/
theorem decode_dump (h : c.Valid isFile) (hkeeps : ∀ v ∈ c.freeTexts, losesStart v = false) :
    default.decode c.dump = .ok c.filled :=
  (decode_dump_eq_ok_iff h).2 ⟨fun v hv => bytesContent_ne_none (hkeeps v hv), reread_eq h hkeeps⟩

/-- The console has nothing to write to by default. -/
theorem filled_eq_self (hdest : c.logging.file.destination ≠ []) (hmode : c.logging.file.mode ≠ []) :
    c.filled = c := by
  have hconsole : c.logging.console.filled default.logging.console = c.logging.console := by
    have hnil : ∀ v : Bytes, (if v = [] then [] else v) = v := by
      intro v
      cases v <;> rfl
    simp [Logger.filled, default, hnil]
  rw [filled, hconsole, Logger.filled]
  simp [hdest, hmode]

end

end Config

end Restyle
