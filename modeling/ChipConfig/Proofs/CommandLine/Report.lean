import ChipConfig.CommandLine.Directory
import ChipConfig.Proofs.Layout.Accumulate

/-!
# Registers through the files of two commands

One command writes the image of a configuration as text and another one reads it back.  Between the
two lie four formats: the configuration, the bit map, the image and the list of registers that comes
out.  Each is read as it was printed, so the registers that come out are those of the configuration,
as far as the bit map shows them.
-/

namespace ChipConfig.CommandLine

variable {read : Reader} {widths : WidthArguments}

@[simp]
theorem explain_eq_ok_iff {ε α : Type} {activity : String} {chain : ε → List String}
    {result : Except ε α} {a : α} : explain activity chain result = .ok a ↔ result = .ok a := by
  cases result <;> simp [explain, Except.mapError]

@[simp]
theorem open_eq_ok_iff {path text : String} : read.open path = .ok text ↔ read path = .ok text :=
  explain_eq_ok_iff

@[simp]
theorem loadWidth_eq_ok_iff {noun : String} {bits : Nat} {width : Width} :
    loadWidth noun bits = .ok width ↔ Width.ofBits bits = .ok width :=
  explain_eq_ok_iff

/-- A bit map depends only on what its own file holds. -/
theorem loadBitMap_congr {later : Reader} {path : String} (h : later path = read path)
    (width : Width) : loadBitMap later path width = loadBitMap read path width := by
  rw [loadBitMap, loadBitMap, Reader.open, Reader.open, h]

theorem reachable_of_loadBitMap {path : String} {width : Width} {bitMap : BitMap}
    (h : loadBitMap read path width = .ok bitMap) : bitMap.Reachable := by
  obtain ⟨text, -, hparse⟩ := Fallible.bind_eq_ok_iff.1 h
  rw [explain_eq_ok_iff] at hparse
  split at hparse
  · exact .document hparse
  · exact .table hparse

@[simp]
theorem loadConfiguration_eq_ok_iff {path : String} {width : Width}
    {reading : ConfigurationArguments} {file : RegisterFile} :
    loadConfiguration read path width reading = .ok file ↔
      ∃ text, read path = .ok text ∧ RegisterFile.parse text width reading.options = .ok file := by
  simp [loadConfiguration]

@[simp]
theorem loadImage_eq_ok_iff {path : String} {width : Width} {image : Image} :
    loadImage read path width = .ok image ↔
      ∃ text, read path = .ok text ∧ Image.parse text width = .ok image := by
  simp [loadImage]

/-- An image is reported if everything can be loaded and the image can be built. -/
theorem encodeReport_eq_ok_iff {descriptor bitMap configuration : String} {strictMissing : Bool}
    {reading : ConfigurationArguments} {text : String} :
    encodeReport read descriptor bitMap configuration strictMissing widths reading = .ok text ↔
      ∃ registerWidth map wordWidth layout file encoded,
        Width.ofBits widths.registerWidth = .ok registerWidth ∧
        loadRegisterMap read descriptor registerWidth = .ok map ∧
        Width.ofBits widths.wordWidth = .ok wordWidth ∧
        loadBitMap read bitMap wordWidth = .ok layout ∧
        loadConfiguration read configuration registerWidth reading = .ok file ∧
        Layout.encode (if strictMissing then .reject else .zero) map layout file = .ok encoded ∧
        text = encoded.image.text := by
  simp [encodeReport]

/-- Registers are reported if everything can be loaded, the image can be read, and no fixed bit is
wrong that matters. -/
theorem decodeReport_eq_ok_iff {bitMap image : String} {strict : Bool} {text : String} :
    decodeReport read bitMap image strict widths = .ok text ↔
      ∃ wordWidth layout words registerWidth decoded,
        Width.ofBits widths.wordWidth = .ok wordWidth ∧
        loadBitMap read bitMap wordWidth = .ok layout ∧
        loadImage read image layout.width = .ok words ∧
        Width.ofBits widths.registerWidth = .ok registerWidth ∧
        Layout.decode words layout registerWidth = .ok decoded ∧
        (strict = true → decoded.mismatches = []) ∧
        text = decoded.registers.text := by
  simp [decodeReport]

/-- What a strict reading prints of an image that was built from a configuration is this
configuration, as far as the bit map shows it. -/
theorem decodeReport_encodeReport {later : Reader}
    {descriptor bitMap configuration image : String} {strictMissing : Bool}
    {reading : ConfigurationArguments} {text : String}
    (hencode : encodeReport read descriptor bitMap configuration strictMissing widths reading =
      .ok text)
    (hbitMap : later bitMap = read bitMap) (himage : later image = .ok text) :
    ∃ registerWidth wordWidth layout file out,
      Width.ofBits widths.registerWidth = .ok registerWidth ∧
      Width.ofBits widths.wordWidth = .ok wordWidth ∧
      loadBitMap read bitMap wordWidth = .ok layout ∧
      loadConfiguration read configuration registerWidth reading = .ok file ∧
      decodeReport later bitMap image true widths = .ok out ∧
      ∀ options, ∃ result, RegisterFile.parse out registerWidth options = .ok result ∧
        result.words.keys = layout.referencedRegisters ∧
        ∀ register, result.words.get? register =
          if register ∈ layout.referencedRegisters then
            some (file.get register &&& layout.projectedBits register)
          else none := by
  obtain ⟨registerWidth, map, wordWidth, layout, file, encoded, hregister, -, hword, hlayout, hfile,
    hencoded, rfl⟩ := encodeReport_eq_ok_iff.1 hencode
  have hmap := (reachable_of_loadBitMap hlayout).wellFormed
  obtain ⟨havailable, rfl⟩ := (Layout.encode_eq_ok_iff hmap).1 hencoded
  obtain ⟨configurationText, -, hparse⟩ := loadConfiguration_eq_ok_iff.1 hfile
  obtain rfl := (RegisterFile.parse_eq_ok_iff.1 hparse).1
  let registers := Layout.readRegisters (Layout.shownImage layout file) layout file.width
  have hloaded : loadImage later image layout.width = .ok (Layout.shownImage layout file) :=
    loadImage_eq_ok_iff.2 ⟨_, himage, Image.parse_text (Layout.fits_shownImage hmap)⟩
  have hdecoded : Layout.decode (Layout.shownImage layout file) layout file.width =
      .ok ⟨registers, []⟩ :=
    Layout.decode_of_get?_eq hmap havailable rfl fun _ _ ↦ rfl
  have hreport : decodeReport later bitMap image true widths = .ok registers.text :=
    decodeReport_eq_ok_iff.2 ⟨wordWidth, layout, _, file.width, _, hword,
      (loadBitMap_congr hbitMap wordWidth).trans hlayout, hloaded, hregister, hdecoded,
      fun _ ↦ rfl, rfl⟩
  refine ⟨file.width, wordWidth, layout, file, registers.text, hregister, hword, hlayout, hfile,
    hreport, fun options ↦ ⟨registers, ?_, Layout.keys_readRegisters, fun register ↦ ?_⟩⟩
  · obtain ⟨hwidth, hfits⟩ := Layout.fitsIn_of_decode hdecoded
    rw [← hwidth]
    exact RegisterFile.parse_text hfits options
  · rw [RegisterFile.get?_words, Layout.get_readRegisters_shownImage hmap,
      if_congr (Layout.contains_readRegisters register) rfl rfl]

/-- A descriptor, a bit map and a configuration. -/
def sampleDirectory : Directory where
  files := SortedMap.ofList [
    ("chip.json", "\x7b\"Registers\": [\x7b\"Address\": \"0x0\", \"Mode\": \"RW\"\x7d]\x7d"),
    ("eeprom.map", "0 1 0 R3[9] R3[10]\n1 X R0[4] 0 1\n"),
    ("page.txt", "R0 0010\nR3 0602\n")]

/-- The configuration with a bit set that the bit map does not show. -/
def sampleConfiguration : RegisterFile :=
  ⟨.w16, SortedMap.ofList [(0, 0x0010), (3, 0x0602)]⟩

theorem decodeReport_encodeReport_sample :
    ∃ after, sampleDirectory.write "image.txt" "0x00 0xb\n0x01 0x5\n" = .ok after ∧
      encodeReport sampleDirectory.reader "chip.json" "eeprom.map" "page.txt" false ⟨16, 4⟩
        ⟨false, false⟩ = .ok "0x00 0xb\n0x01 0x5\n" ∧
      ∃ out, decodeReport after.reader "eeprom.map" "image.txt" true ⟨16, 4⟩ = .ok out ∧
        ∃ result, RegisterFile.parse out .w16 ⟨.reject, .decimal⟩ = .ok result ∧
          result.words.keys = [0, 3] ∧ result.words.get? 3 = some 0x0600 := by
  have hencode : encodeReport sampleDirectory.reader "chip.json" "eeprom.map" "page.txt" false
      ⟨16, 4⟩ ⟨false, false⟩ = .ok "0x00 0xb\n0x01 0x5\n" := by decide +kernel
  have hlayout : loadBitMap sampleDirectory.reader "eeprom.map" BitMap.sample.width =
      .ok BitMap.sample := by decide +kernel
  have hfile : loadConfiguration sampleDirectory.reader "page.txt" .w16 ⟨false, false⟩ =
      .ok sampleConfiguration := by decide +kernel
  obtain ⟨after, hwrite, hbitMap, himage⟩ :
      ∃ after, sampleDirectory.write "image.txt" "0x00 0xb\n0x01 0x5\n" = .ok after ∧
        after.reader "eeprom.map" = sampleDirectory.reader "eeprom.map" ∧
        after.reader "image.txt" = .ok "0x00 0xb\n0x01 0x5\n" :=
    ⟨_, rfl, by decide +kernel, by decide +kernel⟩
  obtain ⟨registerWidth, wordWidth, layout, file, out, hregister, hword, hread, hloaded, hout,
    hresult⟩ := decodeReport_encodeReport hencode hbitMap himage
  obtain rfl : Width.w16 = registerWidth := Except.ok.inj hregister
  obtain rfl : BitMap.sample.width = wordWidth := Except.ok.inj hword
  obtain rfl := Except.ok.inj (hlayout.symm.trans hread)
  obtain rfl := Except.ok.inj (hfile.symm.trans hloaded)
  obtain ⟨result, hparse, hkeys, hget⟩ := hresult ⟨.reject, .decimal⟩
  refine ⟨after, hwrite, hencode, out, hout, result, hparse, hkeys.trans (by decide), ?_⟩
  rw [hget]
  decide

end ChipConfig.CommandLine
