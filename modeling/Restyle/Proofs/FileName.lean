import Restyle.Archive.Name
import Restyle.FileName
import Restyle.Proofs.Path
import Restyle.Proofs.Text.Utf8
import Restyle.State.Settings

/-!
# Where results are written

The name of a result comes from outside: from an archive, whose entries may be called anything.  Two
facts keep the result below its destination.

* A cleaned name is *shown* (`shown_clean`): it is not empty, does not start with a dot and holds no
  slash.  Of the spelling that is cleaned nothing needs to be known.
* The directories of a safe entry lead down (`descends_of_isSafe`), and so they do below any other
  path that descends.

`outputPathWith_under`: the path of a result is the destination and one or more names behind it, the
last of them shown.
-/

namespace Restyle

/-! ### ASCII bytes -/

/-- An ASCII byte stands for itself alone. -/
theorem Utf8.toNat_of_mem_encodeChar {b : UInt8} {c : Char} (h : b ∈ encodeChar c)
    (hb : b.toNat < 0x80) : c.toNat = b.toNat := by
  have hv := toNat_scalar c
  -- every other byte of a character is at least 0x80
  have high : ∀ n : Nat, 0x80 ≤ n → n < 256 → b ≠ UInt8.ofNat n := by
    rintro n hlow hhigh rfl
    rw [toNat_byte hhigh] at hb
    omega
  simp only [encodeChar] at h
  split at h
  · next hn =>
      rw [List.mem_singleton.1 h, toNat_byte (by omega)]
  · split at h
    · simp only [List.mem_cons, List.not_mem_nil, or_false] at h
      rcases h with h | h <;> exact absurd h (high _ (by omega) (by omega))
    · split at h
      · simp only [List.mem_cons, List.not_mem_nil, or_false] at h
        rcases h with h | h | h <;> exact absurd h (high _ (by omega) (by omega))
      · simp only [List.mem_cons, List.not_mem_nil, or_false] at h
        rcases h with h | h | h | h <;> exact absurd h (high _ (by omega) (by omega))

/-- A byte below 128 is a character of the text. -/
theorem Utf8.mem_of_mem_encode {c : Char} (hc : c.toNat < 0x80) {text : List Char}
    (h : UInt8.ofNat c.toNat ∈ encode text) : c ∈ text := by
  have hb : (UInt8.ofNat c.toNat).toNat = c.toNat := toNat_byte (by omega)
  obtain ⟨d, hd, hm⟩ := List.mem_flatMap.1 h
  have := toNat_of_mem_encodeChar hm (by omega)
  rwa [← Char.toNat_inj.1 (this.trans hb)]

namespace FileName

/-! ### Cleaned names -/

/-- A file name that is not hidden. -/
structure Shown (name : Bytes) : Prop where
  ne_nil : name ≠ []
  no_slash : Path.slash ∉ name
  no_dot : name.head? ≠ some Path.dot

/-- What is shown can be a name. -/
theorem Shown.isName {name : Bytes} (h : Shown name) : Path.IsName name where
  ne_nil := h.ne_nil
  ne_here := fun he => h.no_dot (he ▸ rfl)
  ne_above := fun he => h.no_dot (he ▸ rfl)
  no_slash := h.no_slash

theorem Shown.append {name : Bytes} (h : Shown name) {more : Bytes} (hm : Path.slash ∉ more) :
    Shown (name ++ more) where
  ne_nil := by simp [h.ne_nil]
  no_slash := by
    rw [List.mem_append, not_or]
    exact ⟨h.no_slash, hm⟩
  no_dot := by
    obtain ⟨b, t, rfl⟩ := List.exists_cons_of_ne_nil h.ne_nil
    exact h.no_dot

/-- A text with neither slash nor leading dot is written as a name that is shown. -/
theorem shown_encode {text : List Char} (hne : text ≠ []) (hslash : '/' ∉ text)
    (hdot : text.head? ≠ some '.') : Shown (Utf8.encode text) := by
  obtain ⟨c, s, rfl⟩ := List.exists_cons_of_ne_nil hne
  obtain ⟨b, t, hb⟩ := List.exists_cons_of_ne_nil (Utf8.encodeChar_ne_nil c)
  have hencode : Utf8.encode (c :: s) = b :: (t ++ Utf8.encode s) := by
    rw [Utf8.encode, List.flatMap_cons, hb]
    rfl
  refine ⟨by simp [hencode], fun h => hslash (Utf8.mem_of_mem_encode (by decide) h), ?_⟩
  rw [hencode, List.head?_cons]
  intro h
  obtain rfl : b = Path.dot := Option.some.inj h
  have hm : Path.dot ∈ Utf8.encodeChar c := hb ▸ List.mem_cons_self
  have hc : c = '.' := Char.toNat_inj.1 (Utf8.toNat_of_mem_encodeChar hm (by decide))
  exact hdot (by rw [hc]; rfl)

/-- **A cleaned name is shown**, whatever was cleaned. -/
theorem shown_clean (name : Bytes) : Shown (clean name) := by
  unfold clean
  dsimp only
  split
  · exact ⟨by decide, by decide, by decide⟩
  · next hne =>
      rw [List.isEmpty_iff] at hne
      refine shown_encode hne ?_ ?_
      · intro hm
        have := (List.mem_filter.1 ((List.dropWhile_suffix _).subset hm)).2
        simp [isSeparator] at this
      · intro hd
        have := List.head?_dropWhile_not (· == '.')
          ((Utf8.codePoints name).filter fun c => !isControl c && !isSeparator c)
        rw [hd] at this
        simp at this

end FileName

/-! ### The parts of an output path -/

/-- Safe names go down only. -/
theorem Archive.descends_of_isSafe {name : Bytes} (h : isSafe name = true) : Path.Descends name := by
  simp only [isSafe, Bool.and_eq_true, bne_iff_ne, Bool.not_eq_true', List.contains_eq_mem,
    decide_eq_false_iff_not] at h
  exact ⟨by simpa [Path.isAbsolute] using h.1.1, h.2⟩

theorem Settings.no_slash_of_setSuffix {s s' : Settings} {suffix : Bytes}
    (h : s.setSuffix suffix = .ok s') : Path.slash ∉ s'.suffix := by
  unfold setSuffix at h
  split at h
  · cases h
  · next hs =>
      cases h
      intro hm
      exact hs (List.any_eq_true.2 ⟨Path.slash, hm, rfl⟩)

/-- **A name below directories that descend** is put behind the destination. -/
theorem Path.join_under {dir : Bytes} (habs : isAbsolute dir = true) (hclean : clean dir = dir)
    {sub file : Bytes} (hsub : Descends sub) (hne : sub ≠ []) (hfile : IsName file) :
    join [dir, sub, file] = under dir (names sub ++ [file]) ∧
      clean (join [dir, sub, file]) = join [dir, sub, file] := by
  have hdir : dir ≠ [] := by
    rintro rfl
    cases habs
  have hnames : above ∉ parts (sub ++ slash :: file) := by
    refine (hsub.append hne ?_).no_above
    rw [parts, Bytes.split_of_not_mem hfile.no_slash, List.mem_singleton]
    exact hfile.ne_above.symm
  have hjoin : join [dir, sub, file] = clean (dir ++ slash :: (sub ++ slash :: file)) := by
    simp [join, hdir, hne, hfile.ne_nil, List.intercalate]
  have hcomponents : components (dir ++ slash :: (sub ++ slash :: file)) =
      components dir ++ (names sub ++ [file]) := by
    rw [components_append hdir hnames, names_append, names_of_isName hfile]
  rw [hjoin, clean, isAbsolute_append hdir, habs, hcomponents]
  refine ⟨ofComponents_append habs hclean (by simp), clean_ofComponents fun c hc => ?_⟩
  rcases List.mem_append.1 hc with hc | hc
  · exact isName_of_mem_components habs hc
  rcases List.mem_append.1 hc with hc | hc
  · exact isName_of_mem_names hsub.no_above hc
  · exact List.mem_singleton.1 hc ▸ hfile

/-- **No result leaves the destination.**  The path of the result of a safe entry is the destination
and names behind it, none of them `..`; it is clean already, and its last name is not hidden.
Whatever the entry is called, below whatever path that descends it is put, and however its name is
respelled. -/
theorem outputPathWith_under (slugOf : Bytes → Bytes) (slugged : Bool)
    {entry outside suffix destination : Bytes} {given settings : Settings}
    (hentry : Archive.isSafe entry = true) (houtside : Path.Descends outside)
    (hsuffix : given.setSuffix suffix = .ok settings)
    (habs : Path.isAbsolute destination = true) (hclean : Path.clean destination = destination) :
    ∃ dirs file,
      FileName.outputPathWith slugOf (Path.join [outside, entry]) destination settings.suffix slugged =
        Path.under destination (dirs ++ [file]) ∧
      Path.clean (Path.under destination (dirs ++ [file])) =
        Path.under destination (dirs ++ [file]) ∧
      (∀ d ∈ dirs, Path.IsName d) ∧ FileName.Shown file := by
  have hsource : Path.Descends (Path.join [outside, entry]) :=
    houtside.join (Archive.descends_of_isSafe hentry)
  have hsub := hsource.parent
  unfold FileName.outputPathWith
  dsimp only
  generalize (if slugged then slugOf (Path.stem (Path.join [outside, entry]))
    else Path.stem (Path.join [outside, entry])) = stem
  have hfile : FileName.Shown (FileName.clean stem ++ settings.suffix ++ (".css" : Bytes)) :=
    ((FileName.shown_clean stem).append (Settings.no_slash_of_setSuffix hsuffix)).append (by decide)
  obtain ⟨hunder, hagain⟩ := Path.join_under habs hclean hsub hsource.parent_ne_nil hfile.isName
  exact ⟨_, _, hunder, hunder ▸ hagain, fun d hd => Path.isName_of_mem_names hsub.no_above hd, hfile⟩

/-- A name of points and a tab only, below a directory with a colon, written with parts that lead
nowhere. -/
def hiddenEntry : Bytes := "a b//./c:/.\t..css"

theorem outputPathWith_under_hiddenEntry :
    Archive.isSafe hiddenEntry = true ∧ Path.Descends "lib/." ∧
      Settings.setSuffix {} "-min" = .ok { suffix := "-min" } ∧
      Path.isAbsolute "/out" = true ∧ Path.clean "/out" = "/out" ∧
      ∃ dirs file,
        FileName.outputPath (Path.join ["lib/.", hiddenEntry]) "/out" "-min" true =
          Path.under "/out" (dirs ++ [file]) ∧
        Path.clean (Path.under "/out" (dirs ++ [file])) = Path.under "/out" (dirs ++ [file]) ∧
        (∀ d ∈ dirs, Path.IsName d) ∧ FileName.Shown file := by
  have hentry : Archive.isSafe hiddenEntry = true := by decide
  have houtside : Path.Descends "lib/." := by decide
  have hsuffix : Settings.setSuffix {} "-min" = .ok { suffix := "-min" } := rfl
  have habs : Path.isAbsolute "/out" = true := by decide
  have hclean : Path.clean "/out" = "/out" := by decide
  exact ⟨hentry, houtside, hsuffix, habs, hclean,
    outputPathWith_under _ true hentry houtside hsuffix habs hclean⟩

example : FileName.outputPath (Path.join ["lib/.", hiddenEntry]) "/out" "-min" false =
    Path.under "/out" ["lib", "a b", "c:", "_bad_file_name_-min.css"] := by
  decide

end Restyle
