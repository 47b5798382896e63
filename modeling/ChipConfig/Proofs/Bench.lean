import ChipConfig.Proofs.Device.Invariant
import ChipConfig.Proofs.Layout.Accumulate
import ChipConfig.Proofs.Layout.Encode
import ChipConfig.Proofs.RegisterMap.Access

/-!
# Objects under any calls

Register files, images and memories are made by calls and changed by calls.  A bench holds those
that have been made so far, each at the place it was given when it was made.  A call that fails
makes nothing, but it may stop halfway through a change, and what it leaves counts like anything
else.  Words are checked wherever they come in, so no object ever holds a value that is too wide for
it, and no call changes a width.
-/

namespace ChipConfig.Bench

/-- Something with a width that holds words. -/
inductive Object where
  | ofFile (file : RegisterFile)
  | ofImage (image : Image)
  | ofMemory (memory : Memory)
deriving DecidableEq

namespace Object

def width : Object → Width
  | ofFile file => file.width
  | ofImage image => image.width
  | ofMemory memory => memory.width

/-- The words of all entries; for a memory also those of the writes on its record. -/
def values : Object → List Word
  | ofFile file => file.toList.map Prod.snd
  | ofImage image => image.toList.map Prod.snd
  | ofMemory memory => (memory.words.toList ++ memory.writes).map Prod.snd

def onFile (change : RegisterFile → RegisterFile) : Object → Object
  | ofFile file => .ofFile (change file)
  | other => other

def onImage (change : Image → Image) : Object → Object
  | ofImage image => .ofImage (change image)
  | other => other

def onMemory (change : Memory → Memory) : Object → Object
  | ofMemory memory => .ofMemory (change memory)
  | other => other

/-- Whether an object has a width and only words that fit it. -/
def FitsIn (width : Width) : Object → Prop
  | ofFile file => file.FitsIn width
  | ofImage image => image.FitsIn width
  | ofMemory memory => memory.FitsIn width

variable {width : Width} {object : Object}

theorem FitsIn.width_eq (h : object.FitsIn width) : object.width = width := by
  cases object with
  | ofFile file => exact RegisterFile.FitsIn.width_eq h
  | ofImage image => exact Image.FitsIn.width_eq h
  | ofMemory memory => exact Memory.FitsIn.width_eq h

theorem FitsIn.values (h : object.FitsIn width) : ∀ value ∈ object.values, width.Fits value := by
  intro value hvalue
  cases object with
  | ofFile file =>
    obtain ⟨entry, hentry, rfl⟩ := List.mem_map.1 hvalue
    obtain ⟨rfl, hfits⟩ := h
    exact hfits entry.1 entry.2 (SortedMap.mem_toList_iff.1 hentry)
  | ofImage image =>
    obtain ⟨entry, hentry, rfl⟩ := List.mem_map.1 hvalue
    obtain ⟨rfl, hfits⟩ := h
    exact Image.fits_iff.1 hfits entry hentry
  | ofMemory memory =>
    obtain ⟨entry, hentry, rfl⟩ := List.mem_map.1 hvalue
    rcases List.mem_append.1 hentry with hword | hwrite
    · exact h.words entry.1 entry.2 (SortedMap.mem_toList_iff.1 hword)
    · exact h.writes entry hwrite

theorem FitsIn.onFile (h : object.FitsIn width) {change : RegisterFile → RegisterFile}
    (hchange : ∀ file : RegisterFile, file.FitsIn width → (change file).FitsIn width) :
    (object.onFile change).FitsIn width := by
  cases object with
  | ofFile file => exact hchange file h
  | ofImage image => exact h
  | ofMemory memory => exact h

theorem FitsIn.onImage (h : object.FitsIn width) {change : Image → Image}
    (hchange : ∀ image : Image, image.FitsIn width → (change image).FitsIn width) :
    (object.onImage change).FitsIn width := by
  cases object with
  | ofFile file => exact h
  | ofImage image => exact hchange image h
  | ofMemory memory => exact h

theorem FitsIn.onMemory (h : object.FitsIn width) {change : Memory → Memory}
    (hchange : ∀ memory : Memory, memory.FitsIn width → (change memory).FitsIn width) :
    (object.onMemory change).FitsIn width := by
  cases object with
  | ofFile file => exact h
  | ofImage image => exact h
  | ofMemory memory => exact hchange memory h

end Object

/-- A call that makes an object.  What it is made from may be anything: devices that answer as they
like, bit maps that make no sense, images and files that come from nowhere. -/
inductive Origin where
  | emptyFile (width : Width)
  | fileOfList (width : Width) (words : List (Address × Word))
  | parseFile (text : String) (width : Width) (options : RegisterFile.ParseOptions)
  | decode (image : Image) (bitMap : BitMap) (registerWidth : Width)
  | readBack {σ : Type} (device : Device σ) (state : σ) (map : RegisterMap)
  | emptyImage (width : Width)
  | imageOfWords (width : Width) (words : List Word)
  | parseImage (text : String) (width : Width)
  | encode (policy : MissingPolicy) (map : RegisterMap) (bitMap : BitMap) (file : RegisterFile)
  | readImage {σ : Type} (device : Device σ) (state : σ) (interface : EepromInterface)
      (width : Width)
  | emptyMemory (width : Width)

def Origin.make? : Origin → Option Object
  | emptyFile width => some (.ofFile (.empty width))
  | fileOfList width words => (RegisterFile.ofList width words).toOption.map .ofFile
  | parseFile text width options => (RegisterFile.parse text width options).toOption.map .ofFile
  | decode image bitMap registerWidth =>
    (Layout.decode image bitMap registerWidth).toOption.map fun decoded ↦ .ofFile decoded.registers
  | readBack device state map => ((device.readBack map).runFrom state).1.toOption.map .ofFile
  | emptyImage width => some (.ofImage (.empty width))
  | imageOfWords width words => (Image.ofWords width words).toOption.map .ofImage
  | parseImage text width => (Image.parse text width).toOption.map .ofImage
  | encode policy map bitMap file =>
    (Layout.encode policy map bitMap file).toOption.map fun encoded ↦ .ofImage encoded.image
  | readImage device state interface width =>
    ((interface.readImage device width).runFrom state).1.toOption.map .ofImage
  | emptyMemory width => some (.ofMemory (.empty width))

inductive FileCall where
  | set (register : Address) (word : Word)
  | touch (register : Address)
  | toggle (place : RegisterBit)
  | erase (register : Address)
  | writeRaw (field : Field) (raw : Word)
  | write (field : Field) (value : Value)
  | decodeInto (image : Image) (bitMap : BitMap)

def FileCall.after : FileCall → RegisterFile → RegisterFile
  | set register word, file => ((Session.change (·.set register word)).runFrom file).2
  | touch register, file => file.touch register
  | toggle place, file => ((Session.change (Layout.applyToggle · place)).runFrom file).2
  | erase register, file => file.erase register
  | writeRaw field raw, file => ((field.writeRawInPlace raw).runFrom file).2
  | write field value, file => ((field.writeInPlace value).runFrom file).2
  | decodeInto image bitMap, file => ((Layout.decodeInPlace image bitMap).runFrom file).2

/-- A call on a memory.  The file or the image that is read from it comes from an `Origin`; this is
about the memory that was read. -/
inductive MemoryCall where
  | poke (address : Address) (word : Word)
  | write (address : Address) (word : Word)
  | read (address : Address)
  | program (map : RegisterMap) (file : RegisterFile)
  | readBack (map : RegisterMap)
  | writeImage (interface : EepromInterface) (image : Image)
  | readImage (interface : EepromInterface) (width : Width)
  | verifyImage (interface : EepromInterface) (written : Image)
  | commit (sequence : CommitSequence) (interface : EepromInterface)

def MemoryCall.after : MemoryCall → Memory → Memory
  | poke address word, memory => ((Session.change (·.poke address word)).runFrom memory).2
  | write address word, memory => ((Memory.write address word).runFrom memory).2
  | read address, memory => ((Memory.read address).runFrom memory).2
  | program map file, memory => ((Memory.device.program map file).runFrom memory).2
  | readBack map, memory => ((Memory.device.readBack map).runFrom memory).2
  | writeImage interface image, memory =>
    ((interface.writeImage Memory.device image).runFrom memory).2
  | readImage interface width, memory =>
    ((interface.readImage Memory.device width).runFrom memory).2
  | verifyImage interface written, memory =>
    ((interface.verifyImage Memory.device written).runFrom memory).2
  | commit sequence interface, memory => ((sequence.run interface Memory.device).runFrom memory).2

/-- A call of the library.  A call on an object names its place on the bench; one that names an
object of another kind, or none, is no call. -/
inductive Call where
  | make (origin : Origin)
  | copy (place : Nat)
  | onFile (place : Nat) (call : FileCall)
  | setWord (place : Nat) (address : Address) (word : Word)
  | onMemory (place : Nat) (call : MemoryCall)

def perform (bench : List Object) : Call → List Object
  | .make origin => bench ++ origin.make?.toList
  | .copy place => bench ++ bench[place]?.toList
  | .onFile place call => bench.modify place (Object.onFile call.after)
  | .setWord place address word =>
    bench.modify place (Object.onImage fun image ↦
      ((Session.change fun image : Image ↦ image.set address word).runFrom image).2)
  | .onMemory place call => bench.modify place (Object.onMemory call.after)

def afterCalls (calls : List Call) : List Object :=
  calls.foldl perform []

variable {width : Width}

theorem FileCall.fitsIn_after (call : FileCall) {file : RegisterFile} (hfile : file.FitsIn width) :
    (call.after file).FitsIn width := by
  cases call with
  | set register word =>
    exact (Session.keeps_change (fun _ _ hbefore hset ↦ hbefore.set hset) file hfile).1
  | touch register => exact hfile.touch register
  | toggle place =>
    refine (Session.keeps_change (fun before after hbefore htoggle ↦ ?_) file hfile).1
    obtain ⟨hplace, rfl⟩ := Layout.applyToggle_eq_ok_iff.1 htoggle
    exact hbefore.flipped hplace
  | erase register => exact hfile.erase register
  | writeRaw field raw => exact (field.keeps_writeRawInPlace raw width file hfile).1
  | write field value => exact (field.keeps_writeInPlace value width file hfile).1
  | decodeInto image bitMap => exact (Layout.keeps_decodeInPlace image bitMap width file hfile).1

theorem MemoryCall.fitsIn_after (call : MemoryCall) {memory : Memory}
    (hmemory : memory.FitsIn width) : (call.after memory).FitsIn width := by
  have hdevice := Memory.keeps_device width
  cases call with
  | poke address word =>
    exact (Session.keeps_change (fun _ _ hbefore hpoke ↦ hbefore.poke hpoke) memory hmemory).1
  | write address word => exact (hdevice.write address word memory hmemory).1
  | read address => exact (hdevice.read address memory hmemory).1
  | program map file => exact (hdevice.program map file memory hmemory).1
  | readBack map => exact (hdevice.readBack map memory hmemory).1
  | writeImage interface image =>
    exact (interface.keeps_writeImage hdevice image memory hmemory).1
  | readImage interface readWidth =>
    exact (interface.keeps_readImage hdevice readWidth memory hmemory).1
  | verifyImage interface written =>
    exact (interface.keeps_verifyImage hdevice written memory hmemory).1
  | commit sequence interface =>
    exact (CommitSequence.keeps_run hdevice sequence interface memory hmemory).1

/-- What is made of a result fits if it fits whenever there is a result. -/
theorem exists_fitsIn_of_toOption {ε α : Type} {result : Except ε α} {toObject : α → Object}
    (hresult : ∀ a, result = .ok a → (toObject a).FitsIn width) {object : Object}
    (h : result.toOption.map toObject = some object) : ∃ width, object.FitsIn width := by
  cases result with
  | error cause => cases h
  | ok a => exact ⟨width, Option.some.inj h ▸ hresult a rfl⟩

theorem Origin.exists_fitsIn_of_make? (origin : Origin) {object : Object}
    (h : origin.make? = some object) : ∃ width, object.FitsIn width := by
  cases origin with
  | emptyFile width => exact ⟨width, Option.some.inj h ▸ RegisterFile.fitsIn_empty width⟩
  | fileOfList width words =>
    exact exists_fitsIn_of_toOption (fun _ ↦ RegisterFile.fitsIn_of_ofList) h
  | parseFile text width options =>
    exact exists_fitsIn_of_toOption (fun _ ↦ RegisterFile.fitsIn_of_parse) h
  | decode image bitMap registerWidth =>
    exact exists_fitsIn_of_toOption (fun _ ↦ Layout.fitsIn_of_decode) h
  | readBack device state map =>
    exact exists_fitsIn_of_toOption (device.keeps_true.readBack map state trivial).2 h
  | emptyImage width => exact ⟨width, Option.some.inj h ▸ Image.fitsIn_empty width⟩
  | imageOfWords width words =>
    exact exists_fitsIn_of_toOption (fun _ ↦ Image.fitsIn_of_ofWords) h
  | parseImage text width => exact exists_fitsIn_of_toOption (fun _ ↦ Image.fitsIn_of_parse) h
  | encode policy map bitMap file =>
    exact exists_fitsIn_of_toOption (fun _ ↦ Layout.fitsIn_of_encode) h
  | readImage device state interface width =>
    have hread := interface.keeps_readImage device.keeps_true width state trivial
    exact exists_fitsIn_of_toOption hread.2 h
  | emptyMemory width => exact ⟨width, Option.some.inj h ▸ Memory.fitsIn_empty width⟩

/-! ## Runs of calls -/

variable {widths : List Width} {bench : List Object}

/-- Objects that fit still do when one of them has been changed. -/
theorem forall₂_fitsIn_modify (h : List.Forall₂ Object.FitsIn widths bench)
    {change : Object → Object}
    (hchange : ∀ width object, object.FitsIn width → (change object).FitsIn width)
    (place : Nat) : List.Forall₂ Object.FitsIn widths (bench.modify place change) := by
  induction h generalizing place with
  | nil =>
    rw [List.modify_nil]
    exact .nil
  | cons hobject hrest ih =>
    cases place with
    | zero => exact .cons (hchange _ _ hobject) hrest
    | succ place => exact .cons hobject (ih place)

theorem map_width_of_forall₂ (h : List.Forall₂ Object.FitsIn widths bench) :
    bench.map Object.width = widths := by
  induction h with
  | nil => rfl
  | cons hobject _ ih => rw [List.map_cons, hobject.width_eq, ih]

theorem fitsIn_width_of_forall₂ (h : List.Forall₂ Object.FitsIn widths bench) :
    ∀ object ∈ bench, object.FitsIn object.width := by
  rwa [← map_width_of_forall₂ h, List.forall₂_map_left_iff, List.forall₂_same] at h

theorem exists_forall₂_append (h : List.Forall₂ Object.FitsIn widths bench) {made : Option Object}
    (hmade : ∀ object, made = some object → ∃ width, object.FitsIn width) :
    ∃ after, widths <+: after ∧ List.Forall₂ Object.FitsIn after (bench ++ made.toList) := by
  cases made with
  | none => exact ⟨widths, List.prefix_rfl, by rwa [Option.toList_none, List.append_nil]⟩
  | some object =>
    obtain ⟨width, hobject⟩ := hmade object rfl
    exact ⟨widths ++ [width], List.prefix_append _ _, List.rel_append h (.cons hobject .nil)⟩

/-- One call keeps the widths there are and adds that of the object it makes, if it makes one. -/
theorem exists_forall₂_perform (h : List.Forall₂ Object.FitsIn widths bench) (call : Call) :
    ∃ after, widths <+: after ∧ List.Forall₂ Object.FitsIn after (perform bench call) := by
  cases call with
  | make origin => exact exists_forall₂_append h fun _ ↦ origin.exists_fitsIn_of_make?
  | copy place =>
    refine exists_forall₂_append h fun object hobject ↦ ?_
    exact ⟨_, fitsIn_width_of_forall₂ h object (List.mem_of_getElem? hobject)⟩
  | onFile place call =>
    refine ⟨widths, List.prefix_rfl, forall₂_fitsIn_modify h (fun _ _ hobject ↦ ?_) place⟩
    exact hobject.onFile fun _ hfile ↦ call.fitsIn_after hfile
  | setWord place address word =>
    refine ⟨widths, List.prefix_rfl, forall₂_fitsIn_modify h (fun _ _ hobject ↦ ?_) place⟩
    refine hobject.onImage fun image himage ↦ ?_
    exact (Session.keeps_change (fun _ _ hbefore hset ↦ hbefore.set hset) image himage).1
  | onMemory place call =>
    refine ⟨widths, List.prefix_rfl, forall₂_fitsIn_modify h (fun _ _ hobject ↦ ?_) place⟩
    exact hobject.onMemory fun _ hmemory ↦ call.fitsIn_after hmemory

theorem exists_forall₂_foldl_perform (h : List.Forall₂ Object.FitsIn widths bench)
    (calls : List Call) :
    ∃ after, widths <+: after ∧ List.Forall₂ Object.FitsIn after (calls.foldl perform bench) := by
  induction calls generalizing widths bench with
  | nil => exact ⟨widths, List.prefix_rfl, h⟩
  | cons call calls ih =>
    obtain ⟨middle, hfirst, hmiddle⟩ := exists_forall₂_perform h call
    obtain ⟨after, hrest, hafter⟩ := ih hmiddle
    exact ⟨after, hfirst.trans hrest, hafter⟩

/-- Whatever calls have been made, no object holds a word that is wider than it says. -/
theorem values_lt_afterCalls (calls : List Call) :
    (∀ object ∈ afterCalls calls, ∀ value ∈ object.values,
      value.toNat < 2 ^ object.width.bits) ∧
    ∀ more : List Call,
      (afterCalls calls).map Object.width <+: (afterCalls (calls ++ more)).map Object.width := by
  obtain ⟨widths, -, hfits⟩ := exists_forall₂_foldl_perform .nil calls
  constructor
  · intro object hobject
    exact (fitsIn_width_of_forall₂ hfits object hobject).values
  · intro more
    obtain ⟨after, hwidths, hafter⟩ := exists_forall₂_foldl_perform hfits more
    rwa [afterCalls, afterCalls, List.foldl_append, map_width_of_forall₂ hfits,
      map_width_of_forall₂ hafter]

/-- A word that is too wide is refused and does not come on the record. -/
example : afterCalls [.make (.emptyMemory .w16), .onMemory 0 (.write 3 0x10000),
      .onMemory 0 (.write 3 0x0600)] =
    [.ofMemory ⟨.w16, .ofList [(3, 0x0600)], [.write 3 0x0600]⟩] := by
  decide +kernel

end ChipConfig.Bench
