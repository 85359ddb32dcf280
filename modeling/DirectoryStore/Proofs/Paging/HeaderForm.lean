import DirectoryStore.Paging.Header
import DirectoryStore.Proofs.Words
import Mathlib.Algebra.Group.Nat.Defs

/-!
# The form of a header

Both headers of a page file have one form: a magic word, and behind it a row of links.
What can be said of reading and writing them is proved here once for both.  A header that
was read is written with the bytes it was read from.  A header that was written is read
back when all of its links can be stored, and is refused for the first that cannot
otherwise.
-/

namespace DirectoryStore.Paging

/-! ## Links that can be stored -/

/-- The block can be stored as a link. -/
def LinkFits (block : BlockId) : Prop := block.toNat < 2 ^ 63

instance (block : BlockId) : Decidable (LinkFits block) :=
  inferInstanceAs (Decidable (block.toNat < 2 ^ 63))

theorem linkFits_header : LinkFits BlockId.header := by
  decide

theorem toInt64_neg_iff (block : BlockId) : block.toInt64 < 0 ↔ ¬ LinkFits block := by
  have signed : block.toInt64.toInt = (block.toNat : Int).bmod (2 ^ 64) :=
    BitVec.toInt_eq_toNat_bmod _
  have small := block.toNat_lt
  have zero : (0 : Int64).toInt = 0 := rfl
  rw [Int64.lt_iff_toInt_lt, signed, zero, LinkFits, Int.bmod_def]
  omega

theorem decodeLink_eq (bytes : Bytes) (offset : Nat) :
    decodeLink bytes offset =
      if LinkFits (bytes.word64 offset) then .ok (bytes.word64 offset)
      else .error (.invalidFormat (.negativeLink (bytes.word64 offset).toInt64)) := by
  unfold decodeLink
  simp only [toInt64_neg_iff, ite_not]
  rfl

/-! ## Links in a row -/

def linksFrom (bytes : Bytes) : (offset count : Nat) → List BlockId
  | _, 0 => []
  | offset, count + 1 => bytes.word64 offset :: linksFrom bytes (offset + 8) count

def decodeLinks (bytes : Bytes) : (offset count : Nat) → Except Error (List BlockId)
  | _, 0 => .ok []
  | offset, count + 1 => do
      let link ← decodeLink bytes offset
      let links ← decodeLinks bytes (offset + 8) count
      return link :: links

def firstUnfit? (links : List BlockId) : Option BlockId :=
  links.find? fun link => ¬ LinkFits link

theorem firstUnfit?_eq_none_iff {links : List BlockId} :
    firstUnfit? links = none ↔ ∀ link ∈ links, LinkFits link := by
  simp [firstUnfit?]

def requireLinksFit (links : List BlockId) : Except Error (List BlockId) :=
  match firstUnfit? links with
  | none => .ok links
  | some link => .error (.invalidFormat (.negativeLink link.toInt64))

theorem requireLinksFit_of_fit {links : List BlockId} (fit : ∀ link ∈ links, LinkFits link) :
    requireLinksFit links = .ok links := by
  rw [requireLinksFit, firstUnfit?_eq_none_iff.mpr fit]

theorem requireLinksFit_of_unfit {links : List BlockId} {link : BlockId}
    (first : firstUnfit? links = some link) :
    requireLinksFit links = .error (.invalidFormat (.negativeLink link.toInt64)) := by
  rw [requireLinksFit, first]

theorem requireLinksFit_cons (link : BlockId) (links : List BlockId) :
    requireLinksFit (link :: links) =
      if LinkFits link then (requireLinksFit links).map (link :: ·)
      else .error (.invalidFormat (.negativeLink link.toInt64)) := by
  by_cases fits : LinkFits link
  · have skipped : firstUnfit? (link :: links) = firstUnfit? links :=
      List.find?_cons_of_neg (by simpa using fits)
    rw [if_pos fits, requireLinksFit, requireLinksFit, skipped]
    cases firstUnfit? links <;> rfl
  · have found : firstUnfit? (link :: links) = some link :=
      List.find?_cons_of_pos (by simpa using fits)
    rw [if_neg fits, requireLinksFit_of_unfit found]

theorem decodeLinks_eq (bytes : Bytes) (offset count : Nat) :
    decodeLinks bytes offset count = requireLinksFit (linksFrom bytes offset count) := by
  induction count generalizing offset with
  | zero => rfl
  | succ count ih =>
      rw [decodeLinks, decodeLink_eq, ih, linksFrom, requireLinksFit_cons]
      split
      · cases requireLinksFit (linksFrom bytes (offset + 8) count) <;> rfl
      · rfl

@[simp] theorem length_flatMap_ofWord64 (links : List BlockId) :
    (links.flatMap Bytes.ofWord64).length = 8 * links.length := by
  induction links with
  | nil => rfl
  | cons link links ih =>
      simp [ih]
      omega

theorem linksFrom_written (front back : Bytes) (links : List BlockId) :
    linksFrom (front ++ (links.flatMap Bytes.ofWord64 ++ back)) front.length links.length =
      links := by
  induction links generalizing front with
  | nil => rfl
  | cons link links ih =>
      have first : (front ++ ((link :: links).flatMap Bytes.ofWord64 ++ back)).word64
          front.length = link := by
        rw [Bytes.word64_append_right (Nat.le_refl _), List.flatMap_cons, List.append_assoc,
          Bytes.word64_append_left (by simp), Nat.sub_self, Bytes.word64_ofWord64]
      -- The others stand behind the first link, which is in front of them now.
      have later := ih (front ++ Bytes.ofWord64 link)
      rw [List.append_assoc, List.length_append, Bytes.length_ofWord64, ← List.append_assoc
        (Bytes.ofWord64 link), ← List.flatMap_cons] at later
      rw [List.length_cons, linksFrom, first, later]

theorem written_linksFrom {bytes : Bytes} {offset count : Nat}
    (inside : offset + 8 * count ≤ bytes.length) :
    (linksFrom bytes offset count).flatMap Bytes.ofWord64 = bytes.slice offset (8 * count) := by
  induction count generalizing offset with
  | zero => simp [linksFrom, Bytes.slice]
  | succ count ih =>
      rw [linksFrom, List.flatMap_cons, Bytes.ofWord64_word64 (by omega), ih (by omega),
        Bytes.slice_append_slice, Nat.mul_succ, Nat.add_comm 8]

theorem linksFrom_append_left {front back : Bytes} {offset count : Nat}
    (inside : offset + 8 * count ≤ front.length) :
    linksFrom (front ++ back) offset count = linksFrom front offset count := by
  induction count generalizing offset with
  | zero => rfl
  | succ count ih =>
      rw [linksFrom, linksFrom, Bytes.word64_append_left (by omega), ih (by omega)]

/-! ## Forms -/

/-- What the headers of one kind consist of, and what is reported where there is none. -/
structure HeaderForm (α : Type) where
  size : Nat
  linkCount : Nat
  /-- The words that a header may start with. -/
  magics : List UInt16
  magic : α → UInt16
  links : α → List BlockId
  truncated : PageFault
  badMagic : UInt16 → PageFault

namespace HeaderForm

variable {α : Type} (form : HeaderForm α)

def toBytes (header : α) : Bytes :=
  Bytes.ofWord16 (form.magic header) ++ (form.links header).flatMap Bytes.ofWord64

def parts (header : α) : UInt16 × List BlockId :=
  (form.magic header, form.links header)

def read (page : Bytes) : Except Error (UInt16 × List BlockId) := do
  if page.length < form.size then
    throw (.invalidFormat form.truncated)
  if page.word16 0 ∉ form.magics then
    throw (.invalidFormat (form.badMagic (page.word16 0)))
  let links ← decodeLinks page 2 form.linkCount
  return (page.word16 0, links)

structure Heads (page : Bytes) : Prop where
  room : form.size ≤ page.length
  magic_mem : page.word16 0 ∈ form.magics
  links_fit : ∀ link ∈ linksFrom page 2 form.linkCount, LinkFits link

/--
Headers are read and written in this form, and are made up of their parts.  Reading is
compared by the parts it finds, so that one function says what is read in every form.
-/
structure Lawful (encode : α → Bytes → Bytes) (decode : Bytes → Except Error α) : Prop where
  size_eq : form.size = 2 + 8 * form.linkCount
  length_links : ∀ header, (form.links header).length = form.linkCount
  magic_mem : ∀ header, form.magic header ∈ form.magics
  parts_inj : ∀ {header header'}, form.parts header = form.parts header' → header = header'
  encode_eq : ∀ header page, encode header page = page.overwrite 0 (form.toBytes header)
  decode_parts : ∀ page, form.parts <$> decode page = form.read page

variable {form}

/-! ## Reading the parts -/

theorem read_of_short {page : Bytes} (short : page.length < form.size) :
    form.read page = .error (.invalidFormat form.truncated) := by
  unfold read
  rw [if_pos short]
  rfl

theorem read_of_strange {page : Bytes} (room : form.size ≤ page.length)
    (strange : page.word16 0 ∉ form.magics) :
    form.read page = .error (.invalidFormat (form.badMagic (page.word16 0))) := by
  unfold read
  rw [if_neg (Nat.not_lt.mpr room), if_pos strange]
  rfl

theorem read_of_known {page : Bytes} (room : form.size ≤ page.length)
    (known : page.word16 0 ∈ form.magics) :
    form.read page = (page.word16 0, ·) <$> decodeLinks page 2 form.linkCount := by
  unfold read
  rw [if_neg (Nat.not_lt.mpr room), if_neg (not_not_intro known)]
  cases decodeLinks page 2 form.linkCount <;> rfl

theorem read_of_unfit {page : Bytes} (room : form.size ≤ page.length)
    (known : page.word16 0 ∈ form.magics) {link : BlockId}
    (first : firstUnfit? (linksFrom page 2 form.linkCount) = some link) :
    form.read page = .error (.invalidFormat (.negativeLink link.toInt64)) := by
  rw [read_of_known room known, decodeLinks_eq, requireLinksFit_of_unfit first]
  rfl

theorem Heads.read_eq {page : Bytes} (heads : form.Heads page) :
    form.read page = .ok (page.word16 0, linksFrom page 2 form.linkCount) := by
  rw [read_of_known heads.room heads.magic_mem, decodeLinks_eq,
    requireLinksFit_of_fit heads.links_fit]
  rfl

/-- What is no header is refused for one of three reasons. -/
theorem exists_fault_of_not_heads {page : Bytes} (headless : ¬ form.Heads page) :
    ∃ fault, form.read page = .error (.invalidFormat fault) := by
  by_cases short : page.length < form.size
  · exact ⟨_, read_of_short short⟩
  have room : form.size ≤ page.length := Nat.le_of_not_lt short
  by_cases known : page.word16 0 ∈ form.magics
  · cases first : firstUnfit? (linksFrom page 2 form.linkCount) with
    | none => exact absurd ⟨room, known, firstUnfit?_eq_none_iff.mp first⟩ headless
    | some link => exact ⟨_, read_of_unfit room known first⟩
  · exact ⟨_, read_of_strange room known⟩

theorem read_eq_ok_iff {page : Bytes} {parts : UInt16 × List BlockId} :
    form.read page = .ok parts ↔
      form.Heads page ∧ parts = (page.word16 0, linksFrom page 2 form.linkCount) := by
  constructor
  · intro found
    by_cases heads : form.Heads page
    · exact ⟨heads, Except.ok.inj (found.symm.trans heads.read_eq)⟩
    · obtain ⟨fault, refused⟩ := exists_fault_of_not_heads heads
      cases found.symm.trans refused
  · rintro ⟨heads, rfl⟩
    exact heads.read_eq

theorem read_append_left (law : form.size = 2 + 8 * form.linkCount) {front : Bytes}
    (whole : form.size ≤ front.length) (back : Bytes) :
    form.read (front ++ back) = form.read front := by
  have longer : form.size ≤ (front ++ back).length := by
    simp
    omega
  unfold read
  rw [if_neg (Nat.not_lt.mpr longer), if_neg (Nat.not_lt.mpr whole), decodeLinks_eq,
    decodeLinks_eq, linksFrom_append_left (by omega), Bytes.word16_append_left (by omega)]

theorem read_take (law : form.size = 2 + 8 * form.linkCount) {page : Bytes}
    (room : form.size ≤ page.length) : form.read (page.take form.size) = form.read page := by
  conv => rhs; rw [← List.take_append_drop form.size page]
  exact (read_append_left law (by simp [room]) _).symm

/-! ## Writing headers -/

theorem word16_toBytes (header : α) (rest : Bytes) :
    (form.toBytes header ++ rest).word16 0 = form.magic header := by
  rw [toBytes, List.append_assoc, Bytes.word16_append_left (by simp), Bytes.word16_ofWord16]

namespace Lawful

variable {encode : α → Bytes → Bytes} {decode : Bytes → Except Error α}
  (lawful : form.Lawful encode decode)

include lawful

theorem length_toBytes (header : α) : (form.toBytes header).length = form.size := by
  rw [toBytes, List.length_append, Bytes.length_ofWord16, length_flatMap_ofWord64,
    lawful.length_links, lawful.size_eq]

theorem encode_eq_append (header : α) (page : Bytes) :
    encode header page = form.toBytes header ++ page.drop form.size := by
  have length := lawful.length_toBytes header
  have nonempty : form.toBytes header ≠ [] := by
    intro empty
    rw [empty, lawful.size_eq, List.length_nil] at length
    omega
  rw [lawful.encode_eq, Bytes.overwrite_zero nonempty, length]

theorem take_encode (header : α) (page : Bytes) :
    (encode header page).take form.size = form.toBytes header := by
  rw [lawful.encode_eq_append, List.take_left' (lawful.length_toBytes header)]

theorem drop_encode (header : α) (page : Bytes) :
    (encode header page).drop form.size = page.drop form.size := by
  rw [lawful.encode_eq_append, List.drop_left' (lawful.length_toBytes header)]

theorem length_encode (header : α) {page : Bytes} (room : form.size ≤ page.length) :
    (encode header page).length = page.length := by
  rw [lawful.encode_eq_append, List.length_append, lawful.length_toBytes, List.length_drop]
  omega

/-! ## Reading what was written -/

theorem linksFrom_toBytes (header : α) (rest : Bytes) :
    linksFrom (form.toBytes header ++ rest) 2 form.linkCount = form.links header := by
  have found := linksFrom_written (Bytes.ofWord16 (form.magic header)) rest (form.links header)
  rwa [Bytes.length_ofWord16, lawful.length_links, ← List.append_assoc] at found

theorem room_toBytes (header : α) (rest : Bytes) :
    form.size ≤ (form.toBytes header ++ rest).length := by
  rw [List.length_append, lawful.length_toBytes]
  omega

theorem heads_toBytes {header : α} (fit : ∀ link ∈ form.links header, LinkFits link)
    (rest : Bytes) : form.Heads (form.toBytes header ++ rest) := by
  have magic : (form.toBytes header ++ rest).word16 0 = form.magic header :=
    word16_toBytes header rest
  have found := lawful.linksFrom_toBytes header rest
  exact ⟨lawful.room_toBytes header rest, magic ▸ lawful.magic_mem header, found.symm ▸ fit⟩

/-! ## Reading headers -/

theorem decode_eq_ok_iff {page : Bytes} {header : α} :
    decode page = .ok header ↔ form.read page = .ok (form.parts header) := by
  rw [← lawful.decode_parts]
  cases decode page with
  | error error => exact ⟨nofun, nofun⟩
  | ok found =>
      exact ⟨congrArg (form.parts <$> ·),
        fun same => congrArg Except.ok (lawful.parts_inj (Except.ok.inj same))⟩

theorem decode_eq_error_iff {page : Bytes} {error : Error} :
    decode page = .error error ↔ form.read page = .error error := by
  rw [← lawful.decode_parts]
  cases decode page with
  | error found =>
      exact ⟨congrArg (form.parts <$> ·),
        fun same => congrArg Except.error (Except.error.inj same)⟩
  | ok found => exact ⟨nofun, nofun⟩

theorem decode_congr {page page' : Bytes} (same : form.read page = form.read page') :
    decode page = decode page' := by
  symm
  cases found : decode page with
  | error error =>
      rw [lawful.decode_eq_error_iff, ← same]
      exact lawful.decode_eq_error_iff.mp found
  | ok header =>
      rw [lawful.decode_eq_ok_iff, ← same]
      exact lawful.decode_eq_ok_iff.mp found

theorem decode_of_take_eq {first second : Bytes} (long : form.size ≤ first.length)
    (long' : form.size ≤ second.length)
    (same : first.take form.size = second.take form.size) :
    decode first = decode second := by
  apply lawful.decode_congr
  rw [← read_take lawful.size_eq long, same, read_take lawful.size_eq long']

theorem heads_of_decode {page : Bytes} {header : α} (found : decode page = .ok header) :
    form.Heads page ∧ page.word16 0 = form.magic header ∧
      linksFrom page 2 form.linkCount = form.links header := by
  obtain ⟨heads, parts_eq⟩ := read_eq_ok_iff.mp (lawful.decode_eq_ok_iff.mp found)
  obtain ⟨magic_eq, links_eq⟩ := Prod.mk.inj parts_eq
  exact ⟨heads, magic_eq.symm, links_eq.symm⟩

theorem links_fit_of_decode {page : Bytes} {header : α}
    (found : decode page = .ok header) : ∀ link ∈ form.links header, LinkFits link := by
  obtain ⟨heads, -, links_eq⟩ := lawful.heads_of_decode found
  exact links_eq ▸ heads.links_fit

theorem decode_toBytes_append {header : α} (fit : ∀ link ∈ form.links header, LinkFits link)
    (rest : Bytes) : decode (form.toBytes header ++ rest) = .ok header := by
  rw [lawful.decode_eq_ok_iff, (lawful.heads_toBytes fit rest).read_eq, word16_toBytes,
    lawful.linksFrom_toBytes, parts]

theorem decode_encode {header : α} (fit : ∀ link ∈ form.links header, LinkFits link)
    (page : Bytes) : decode (encode header page) = .ok header := by
  rw [lawful.encode_eq_append]
  exact lawful.decode_toBytes_append fit _

theorem decode_toBytes_unfit {header : α} {link : BlockId}
    (first : firstUnfit? (form.links header) = some link) (rest : Bytes) :
    decode (form.toBytes header ++ rest) =
      .error (.invalidFormat (.negativeLink link.toInt64)) := by
  rw [lawful.decode_eq_error_iff]
  refine read_of_unfit (lawful.room_toBytes header rest) ?_ ?_
  · rw [word16_toBytes]
    exact lawful.magic_mem header
  · rw [lawful.linksFrom_toBytes, first]

theorem decodes_of_heads {page : Bytes} (heads : form.Heads page) :
    ∃ header, decode page = .ok header := by
  cases found : decode page with
  | ok header => exact ⟨header, rfl⟩
  | error error => cases heads.read_eq.symm.trans (lawful.decode_eq_error_iff.mp found)

theorem encode_decode {page : Bytes} {header : α} (found : decode page = .ok header) :
    encode header page = page := by
  obtain ⟨heads, magic_eq, links_eq⟩ := lawful.heads_of_decode found
  have room := heads.room
  have law := lawful.size_eq
  have front : form.toBytes header = page.take form.size := by
    rw [toBytes, ← magic_eq, ← links_eq, Bytes.ofWord16_word16 (by omega),
      written_linksFrom (by omega), Bytes.slice_append_slice page 0 2, ← law]
    rfl
  rw [lawful.encode_eq_append, front, List.take_append_drop]

end Lawful

/-! ## Exact forms -/

variable (form) in
/--
Writing and reading in this form undo one another, and a page is read exactly when it
starts with a header.  Only pages with room for a header are written to.
-/
structure Exact (encode : α → Bytes → Bytes) (decode : Bytes → Except Error α) : Prop where
  take_encode : ∀ header page, form.size ≤ page.length →
    (encode header page).take form.size = form.toBytes header
  /-- No byte behind the header is touched, and none is added. -/
  spares : ∀ header page, form.size ≤ page.length →
    (encode header page).drop form.size = page.drop form.size ∧
      (encode header page).length = page.length
  decode_encode : ∀ header page, form.size ≤ page.length →
    (∀ link ∈ form.links header, LinkFits link) →
    ∀ rest, decode (encode header page ++ rest) = .ok header
  /-- A header that cannot be stored is refused for the first link that cannot. -/
  decode_encode_unfit : ∀ header page, form.size ≤ page.length →
    ¬ (∀ link ∈ form.links header, LinkFits link) →
    ∃ link, firstUnfit? (form.links header) = some link ∧
      ∀ rest, decode (encode header page ++ rest) =
        .error (.invalidFormat (.negativeLink link.toInt64))
  encode_decode : ∀ page header, decode page = .ok header → encode header page = page
  decodes_iff : ∀ page, (∃ header, decode page = .ok header) ↔ form.Heads page
  decode_short : ∀ page, page.length < form.size →
    decode page = .error (.invalidFormat form.truncated)
  decode_strange : ∀ page, form.size ≤ page.length → page.word16 0 ∉ form.magics →
    decode page = .error (.invalidFormat (form.badMagic (page.word16 0)))
  decode_unfit : ∀ page, form.size ≤ page.length → page.word16 0 ∈ form.magics →
    ∀ link, firstUnfit? (linksFrom page 2 form.linkCount) = some link →
      decode page = .error (.invalidFormat (.negativeLink link.toInt64))

theorem Lawful.exact {encode : α → Bytes → Bytes} {decode : Bytes → Except Error α}
    (lawful : form.Lawful encode decode) : form.Exact encode decode where
  take_encode header page _ := lawful.take_encode header page
  spares header page room := ⟨lawful.drop_encode header page, lawful.length_encode header room⟩
  decode_encode header page _ fit rest := by
    rw [lawful.encode_eq_append, List.append_assoc]
    exact lawful.decode_toBytes_append fit _
  decode_encode_unfit header page _ unfit := by
    rw [← firstUnfit?_eq_none_iff] at unfit
    obtain ⟨link, first⟩ := Option.ne_none_iff_exists'.mp unfit
    refine ⟨link, first, fun rest => ?_⟩
    rw [lawful.encode_eq_append, List.append_assoc]
    exact lawful.decode_toBytes_unfit first _
  encode_decode page header found := lawful.encode_decode found
  decodes_iff page :=
    ⟨fun ⟨_, found⟩ => (lawful.heads_of_decode found).1, lawful.decodes_of_heads⟩
  decode_short page short := lawful.decode_eq_error_iff.mpr (read_of_short short)
  decode_strange page room strange :=
    lawful.decode_eq_error_iff.mpr (read_of_strange room strange)
  decode_unfit page room known link first :=
    lawful.decode_eq_error_iff.mpr (read_of_unfit room known first)

end HeaderForm

end DirectoryStore.Paging
