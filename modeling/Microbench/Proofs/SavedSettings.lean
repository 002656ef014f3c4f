import Microbench.Proofs.DiskChanges
import Microbench.Proofs.Toml.Sections
import Microbench.Settings.Search
/-!
Settings come back as they were saved.

The document that settings are written to has a section for each kind of settings and a field for
each of them. It is read as these fields, and every field is decoded to the setting that it was
written for. The only settings without a document are those with a width that is no signed word,
or with a text that has too many quotes in a row, and saving them leaves the file that was there.
-/
namespace Microbench.Settings

section parts
open Toml (Field Section Denotes nestingLimit)

def textField (key text : String) : Field := ⟨key, Toml.Quoted.write text.toList, .text text⟩

def numberField (key : String) (number : Nat) : Field :=
  ⟨key, (toString number).toList, .integer number⟩

def flagField (key : String) (flag : Bool) : Field :=
  ⟨key, (writeFlag flag).toList, .boolean flag⟩

def regsField (key : String) (regs : List Reg) : Field :=
  ⟨key, (writeRegs regs).toList, .array (regs.map fun reg => .integer reg.number.val)⟩

def parts (settings : Settings) : List Section :=
  let { target, cycle, multiply, output } := settings
  [⟨"target", [textField "arch" target.architecture.name,
      regsField "accumulators" target.accumulators]⟩,
    ⟨"cycle", [numberField "exponent" cycle.exponent.toNat,
      textField "symbol_prefix" cycle.symbolStart, textField "file_prefix" cycle.fileStart,
      textField "extension" cycle.extension, flagField "header" cycle.header,
      textField "header_file" cycle.headerFile]⟩,
    ⟨"ilp", [numberField "max_width" multiply.maxWidth.toNat,
      numberField "unroll" multiply.unroll.toNat, textField "symbol_prefix" multiply.symbolStart,
      textField "asm_file" multiply.asmFile, textField "header_file" multiply.headerFile]⟩,
    ⟨"output", [textField "dir" output.directory]⟩]

def writePart (part : Section) : String :=
  writeSection part.name (part.fields.map fun field => (field.key, String.ofList field.text))

theorem writePart_text (part : Section) : (writePart part).toList = part.text := by
  have line (field : Field) :
      (writePair field.key (String.ofList field.text)).toList = field.line := by
    simp [writePair, Field.line, String.toList_append]
  simp [writePart, writeSection, String.toList_append, String.toList_join, Section.text,
    List.flatMap_def, Function.comp_def, line]

theorem write_parts (settings : Settings) :
    settings.write = String.ofList (Toml.document settings.parts) := by
  have written : settings.write = "\n".intercalate (settings.parts.map writePart) := by
    simp only [write, parts, writePart, List.map_cons, List.map_nil, textField, numberField,
      flagField, regsField, writeText, String.ofList_toList]
  generalize settings.parts = parts at written ⊢
  have texts : (parts.map writePart).map String.toList = parts.map Section.text := by
    rw [List.map_map]
    exact List.map_congr_left fun part _ => writePart_text part
  apply String.toList_inj.mp
  rw [written, String.toList_intercalate, texts, Toml.document]
  simp only [String.toList_ofList]
  rfl

theorem denotes_regs (regs : List Reg) : Denotes (nestingLimit - 1) (writeRegs regs).toList
    (.array (regs.map fun reg => .integer reg.number.val)) := by
  have digits (reg : Reg) : Denotes 78 reg.digits.toList (.integer reg.number.val) :=
    Toml.denotes_number 78 reg.number.val (by omega)
  match regs with
  | [] => exact Toml.denotes_none
  | [reg] =>
      have one := Toml.denotes_one (digits reg)
      simpa [writeRegs, String.toList_append, nestingLimit] using one
  | first :: second :: others =>
      have all := Toml.denotes_lines ((first :: second :: others).map fun reg =>
        (reg.digits.toList, Toml.Node.integer reg.number.val)) (by
          intro item member
          obtain ⟨reg, _, rfl⟩ := List.mem_map.mp member
          exact digits reg)
      have lines : (String.join ((first :: second :: others).map fun reg =>
          "    " ++ reg.digits ++ ",\n")).toList = Toml.itemLines ((first :: second :: others).map
            fun reg => (reg.digits.toList, Toml.Node.integer reg.number.val)) := by
        simp [String.toList_join, Toml.itemLines, List.flatMap_def, Function.comp_def,
          String.toList_append]
      have written : writeRegs (first :: second :: others) = "[\n" ++ String.join
          ((first :: second :: others).map fun reg => "    " ++ reg.digits ++ ",\n") ++ "]" := rfl
      rw [written, String.toList_append, String.toList_append, lines]
      simpa [nestingLimit, Function.comp_def] using all

section fields

def Readable (field : Field) : Prop :=
  Toml.Bare field.key ∧ Denotes (nestingLimit - 1) field.text field.node

variable {key : String} (bare : Toml.Bare key)

include bare

theorem readable_text (text : String) : Readable (textField key text) :=
  ⟨bare, Toml.denotes_text _ text⟩

theorem readable_number (number : Nat) (small : number < 0x8000000000000000) :
    Readable (numberField key number) :=
  ⟨bare, Toml.denotes_number _ number small⟩

theorem readable_flag (flag : Bool) : Readable (flagField key flag) :=
  ⟨bare, Toml.denotes_flag _ flag⟩

theorem readable_regs (regs : List Reg) : Readable (regsField key regs) :=
  ⟨bare, denotes_regs regs⟩

end fields

theorem sound_of_readable {name : String} {fields : List Field} (named : Toml.Bare name)
    (readable : ∀ field ∈ fields, Readable field) (different : (fields.map Field.key).Nodup) :
    (Section.mk name fields).Sound :=
  ⟨named, fun field member => (readable field member).1,
    fun field member => (readable field member).2, different⟩

theorem word_small (word : UInt32) : word.toNat < 0x8000000000000000 :=
  Nat.lt_trans word.toNat_lt (by decide)

theorem parts_sound (settings : Settings)
    (narrow : settings.multiply.maxWidth.toNat < 0x8000000000000000) :
    ∀ part ∈ settings.parts, part.Sound := by
  obtain ⟨target, cycle, multiply, output⟩ := settings
  intro part member
  simp only [parts, List.mem_cons, List.not_mem_nil, or_false] at member
  rcases member with rfl | rfl | rfl | rfl
  · refine sound_of_readable (by decide) ?_ (show ["arch", "accumulators"].Nodup by decide)
    simp only [List.forall_mem_cons]
    exact ⟨readable_text (by decide) _, readable_regs (by decide) _, by simp⟩
  · refine sound_of_readable (by decide) ?_ (show ["exponent", "symbol_prefix", "file_prefix",
      "extension", "header", "header_file"].Nodup by decide)
    simp only [List.forall_mem_cons]
    exact ⟨readable_number (by decide) _ (word_small _), readable_text (by decide) _,
      readable_text (by decide) _, readable_text (by decide) _, readable_flag (by decide) _,
      readable_text (by decide) _, by simp⟩
  · refine sound_of_readable (by decide) ?_ (show ["max_width", "unroll", "symbol_prefix",
      "asm_file", "header_file"].Nodup by decide)
    simp only [List.forall_mem_cons]
    exact ⟨readable_number (by decide) _ narrow, readable_number (by decide) _ (word_small _),
      readable_text (by decide) _, readable_text (by decide) _, readable_text (by decide) _,
      by simp⟩
  · refine sound_of_readable (by decide) ?_ (List.nodup_singleton "dir")
    simp only [List.forall_mem_cons]
    exact ⟨readable_text (by decide) _, by simp⟩

section decoding

theorem decodeBelow_written {bound number : Nat} (below : number < bound) :
    decodeBelow bound (.integer number) = some number := by
  have range : (0 : Int) ≤ number ∧ (number : Int) < bound := by omega
  simp [decodeBelow, range]

theorem decodeWord_written (word : UInt32) : decodeWord (.integer word.toNat) = some word := by
  rw [decodeWord, decodeBelow_written word.toNat_lt]
  simp

theorem decodeLongWord_written (word : UInt64) :
    decodeLongWord (.integer word.toNat) = some word := by
  rw [decodeLongWord, decodeBelow_written word.toNat_lt]
  simp

theorem decodeRegs_written (regs : List Reg) :
    decodeRegs (.array (regs.map fun reg => .integer reg.number.val)) = some regs := by
  rw [decodeRegs]
  induction regs with
  | nil => rfl
  | cons reg others ih =>
      have one : decodeReg (.integer reg.number.val) = some reg := by
        rw [decodeReg, decodeBelow_written reg.number.isLt, Option.map_some, Reg.ofNat_number]
      rw [List.map_cons, List.mapM_cons, one, ih]
      rfl

theorem decodeArchitecture_written (architecture : Architecture) :
    decodeArchitecture (.text architecture.name) = some architecture := by
  cases architecture <;> rfl

end decoding

section sections
open Toml (Node)

theorem given_bind {α β : Type} (value : α) (next : α → Option β) :
    (some value >>= next) = next value := by
  -- taken as a rewrite and not as a computation: to compute whether an unknown number is within its
  -- bound, the kernel would count up to the bound
  simp

theorem decodeTarget_written (target : TargetSettings) :
    decodeTarget (.table .header [("arch", .text target.architecture.name),
      ("accumulators", .array (target.accumulators.map fun reg => .integer reg.number.val))]) =
        some target := by
  simp only [decodeTarget, Fields.ofNode?, given_bind, Fields.read, Fields.find?, List.lookup_cons,
    String.reduceBEq, decodeArchitecture_written, decodeRegs_written]
  rfl

theorem decodeCycle_written (cycle : CycleSettings) :
    decodeCycle (.table .header [("exponent", .integer cycle.exponent.toNat),
      ("symbol_prefix", .text cycle.symbolStart), ("file_prefix", .text cycle.fileStart),
      ("extension", .text cycle.extension), ("header", .boolean cycle.header),
      ("header_file", .text cycle.headerFile)]) = some cycle := by
  simp only [decodeCycle, Fields.ofNode?, given_bind, Fields.read, Fields.find?, List.lookup_cons,
    String.reduceBEq, decodeWord_written, decodeText, decodeFlag]
  rfl

theorem decodeMultiply_written (multiply : MultiplySettings) :
    decodeMultiply (.table .header [("max_width", .integer multiply.maxWidth.toNat),
      ("unroll", .integer multiply.unroll.toNat), ("symbol_prefix", .text multiply.symbolStart),
      ("asm_file", .text multiply.asmFile), ("header_file", .text multiply.headerFile)]) =
        some multiply := by
  simp only [decodeMultiply, Fields.ofNode?, given_bind, Fields.read, Fields.find?, List.lookup_cons,
    String.reduceBEq, decodeLongWord_written, decodeWord_written, decodeText]
  rfl

theorem decodeOutput_written (output : OutputSettings) :
    decodeOutput (.table .header [("dir", .text output.directory)]) = some output := by
  simp only [decodeOutput, Fields.ofNode?, given_bind, Fields.read, Fields.find?, List.lookup_cons,
    String.reduceBEq, decodeText]
  rfl

end sections

/-- What is written is read as the settings that it was written for. -/
theorem parse_write (settings : Settings)
    (narrow : settings.multiply.maxWidth.toNat < 0x8000000000000000) :
    parse settings.write = some settings := by
  have parsed := Toml.parse_document settings.parts (parts_sound settings narrow) (by
    simp [parts])
  rw [parse, write_parts, parsed, given_bind]
  simp only [ofTable, parts, List.map_cons, List.map_nil, Section.entry, textField, numberField,
    flagField, regsField, Fields.read, Fields.find?, List.lookup_cons, String.reduceBEq,
    decodeTarget_written, decodeCycle_written, decodeMultiply_written, decodeOutput_written,
    given_bind]
  rfl

end parts

section saving

/-- What is on a disk when settings were to be saved: the new file, or what was there if that
failed. -/
def saved (settings : Settings) (disk : Disk) (path : String) : Disk :=
  match settings.save disk path with
  | .ok changed => changed
  | .error _ => disk

theorem save_refused {settings : Settings} {fault : WriteFault}
    (faulty : settings.writeFault? = some fault) (disk : Disk) (path : String) :
    settings.save disk path = .error (.unwritable fault) ∧ settings.saved disk path = disk := by
  have refused : settings.save disk path = .error (.unwritable fault) := by
    simp only [save, write?, faulty]
  exact ⟨refused, by rw [saved, refused]⟩

theorem save_done {settings : Settings} {disk changed : Disk} {path : String}
    (sound : settings.writeFault? = none) : settings.save disk path = .ok changed ↔
      disk.overwrite path settings.write = .ok changed := by
  simp only [save, write?, sound]
  cases disk.overwrite path settings.write <;> simp

/-- What can be read is there. -/
theorem load_of_read {disk : Disk} {path : String} {content : ByteArray}
    (read : disk.read path = .ok content) : load disk path = decode content := by
  obtain ⟨place, located, _⟩ := (Disk.bind_ok_iff ..).mp read
  rw [load, if_pos ((Disk.isThere_iff ..).mpr ⟨place, located⟩), read]

theorem decode_text {text : String} {settings : Settings} (parsed : parse text = some settings) :
    decode text.toUTF8 = .ok settings := by
  have valid : String.fromUTF8? text.toUTF8 = some text := by
    simp only [String.fromUTF8?, String.toUTF8_eq_toByteArray, dif_pos text.isValidUTF8]
    rfl
  simp only [decode, valid, parsed]

theorem load_written {settings : Settings} {disk changed : Disk} {path : String}
    (narrow : settings.multiply.maxWidth.toNat < 0x8000000000000000)
    (done : disk.overwrite path settings.write = .ok changed) :
    load changed path = .ok settings := by
  obtain ⟨place, replaces⟩ := Disk.overwrite_replaces done
  rw [load_of_read (Disk.read_of_located replaces.located replaces.written)]
  exact decode_text (parse_write settings narrow)

theorem writeFault_wide {settings : Settings}
    (wide : 0x8000000000000000 ≤ settings.multiply.maxWidth.toNat) :
    settings.writeFault? = some .widthTooLarge := if_pos wide

theorem writeFault_writable {settings : Settings}
    (narrow : settings.multiply.maxWidth.toNat < 0x8000000000000000)
    (writable : ∀ text ∈ settings.texts, Toml.Quoted.isWritable text.toList = true) :
    settings.writeFault? = none := by
  rw [writeFault?, if_neg (Nat.not_le.mpr narrow), if_pos (List.all_eq_true.mpr writable)]

theorem writeFault_quotes {settings : Settings} {text : String}
    (narrow : settings.multiply.maxWidth.toNat < 0x8000000000000000)
    (member : text ∈ settings.texts) (quotes : Toml.Quoted.isWritable text.toList = false) :
    settings.writeFault? = some .tooManyQuotes := by
  rw [writeFault?, if_neg (Nat.not_le.mpr narrow), if_neg]
  intro writable
  rw [List.all_eq_true.mp writable text member] at quotes
  cases quotes

/-- Settings that have been saved are loaded as they were, whatever texts they hold. Saving fails
only for a width that is no signed word, for more than 255 quotes of one kind in a row, or for
a path where no file can be; the disk is as before then. -/
theorem saved_settings_load (settings : Settings) (disk : Disk) (path : String) :
    (0x8000000000000000 ≤ settings.multiply.maxWidth.toNat →
      settings.save disk path = .error (.unwritable .widthTooLarge) ∧
      settings.saved disk path = disk) ∧
    (settings.multiply.maxWidth.toNat < 0x8000000000000000 →
      ((∀ text ∈ settings.texts, Toml.Quoted.isWritable text.toList = true) →
        (∀ parent name, disk.TakesFile path parent name →
          ∃ changed, settings.save disk path = .ok changed) ∧
        ∀ changed, settings.save disk path = .ok changed → load changed path = .ok settings) ∧
      ((∃ text ∈ settings.texts, Toml.Quoted.isWritable text.toList = false) →
        settings.save disk path = .error (.unwritable .tooManyQuotes) ∧
        settings.saved disk path = disk)) := by
  refine ⟨fun wide => save_refused (writeFault_wide wide) disk path, fun narrow => ⟨?_, ?_⟩⟩
  · intro writable
    have sound := writeFault_writable narrow writable
    constructor
    · intro parent name takes
      exact ⟨_, (save_done sound).mpr (Disk.overwrite_ok_iff.mpr ⟨parent, name, takes, rfl⟩)⟩
    · exact fun changed done => load_written narrow ((save_done sound).mp done)
  · rintro ⟨text, member, quotes⟩
    exact save_refused (writeFault_quotes narrow member quotes) disk path

/-- An empty disk is all that the cases below need. -/
theorem empty_takes : Disk.TakesFile {} "c.toml" [] "c.toml" := by
  refine ⟨(Disk.target_iff ..).mp rfl, by decide, by decide, ?_⟩
  rintro ⟨⟩

def oddSettings : Settings :=
  { cycle := { symbolStart := "\"'\"\"\"\\\n\r\x07\t" } }

def quotedSettings : Settings :=
  { cycle := { symbolStart := String.ofList (List.replicate 256 '"') } }

theorem quoted_not_writable :
    Toml.Quoted.isWritable quotedSettings.cycle.symbolStart.toList = false := by
  rw [quotedSettings, String.toList_ofList]
  decide +kernel

theorem saved_settings_load_odd :
    (∃ changed, oddSettings.save {} "c.toml" = .ok changed ∧
      load changed "c.toml" = .ok oddSettings) ∧
    quotedSettings.save {} "c.toml" = .error (.unwritable .tooManyQuotes) ∧
    ({ multiply := { maxWidth := 0x8000000000000000 } } : Settings).save {} "c.toml" =
      .error (.unwritable .widthTooLarge) := by
  have sound := ((saved_settings_load oddSettings {} "c.toml").2 (by decide)).1 (by decide)
  have quoted := ((saved_settings_load quotedSettings {} "c.toml").2 (by decide)).2
    ⟨_, List.mem_cons_self, quoted_not_writable⟩
  have wide := (saved_settings_load { multiply := { maxWidth := 0x8000000000000000 } } {}
    "c.toml").1 (by decide)
  obtain ⟨changed, done⟩ := sound.1 [] "c.toml" empty_takes
  exact ⟨⟨changed, done, sound.2 changed done⟩, quoted.1, wide.1⟩

theorem quotes_not_saved : ¬ ∀ (settings : Settings) (disk : Disk) (path : String)
    (parent : Place) (name : String),
    settings.multiply.maxWidth.toNat < 0x8000000000000000 → disk.TakesFile path parent name →
    ∃ changed, settings.save disk path = .ok changed ∧ load changed path = .ok settings := by
  intro saves
  obtain ⟨changed, done, _⟩ := saves quotedSettings {} "c.toml" [] "c.toml" (by decide) empty_takes
  have faulty : quotedSettings.writeFault? = some .tooManyQuotes :=
    writeFault_quotes (by decide) List.mem_cons_self quoted_not_writable
  rw [(save_refused faulty {} "c.toml").1] at done
  cases done

end saving

end Microbench.Settings
