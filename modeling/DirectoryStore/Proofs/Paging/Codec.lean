import DirectoryStore.Proofs.Paging.HeaderForm

/-!
# Reading page headers back

The page header and the file header have the same form, so what holds of a form holds of
both: a header whose links can be stored is read back from the front of any page that it
was written to, and a header that was read is written with the bytes it was read from.
Reading a header looks at no byte behind it.
-/

namespace DirectoryStore

/-! ## Kinds and their magic words -/

namespace PageKind

@[simp] theorem ofMagic?_magic (kind : PageKind) : ofMagic? kind.magic = some kind := by
  cases kind <;> rfl

theorem magic_inj {kind kind' : PageKind} (same : kind.magic = kind'.magic) : kind = kind' := by
  rw [← Option.some_inj, ← ofMagic?_magic kind, same, ofMagic?_magic]

theorem index_of_ofTag? {tag : UInt16} {kind : PageKind} (known : ofTag? tag = some kind) :
    UInt16.ofNat kind.index = tag := by
  unfold ofTag? at known
  split at known <;> cases known <;> rfl

theorem magic_of_ofMagic? {word : UInt16} {kind : PageKind}
    (known : ofMagic? word = some kind) : kind.magic = word := by
  unfold ofMagic? at known
  split at known
  · rw [magic, index_of_ofTag? known, UInt16.add_comm, UInt16.sub_add_cancel]
  · cases known

def magics : List UInt16 := [free.magic, data.magic, freeList.magic]

theorem magic_mem (kind : PageKind) : kind.magic ∈ magics := by
  cases kind <;> simp [magics]

theorem exists_of_mem_magics {word : UInt16} (known : word ∈ magics) :
    ∃ kind : PageKind, kind.magic = word := by
  simp only [magics, List.mem_cons, List.not_mem_nil, or_false] at known
  rcases known with rfl | rfl | rfl <;> exact ⟨_, rfl⟩

theorem ofMagic?_of_strange {word : UInt16} (strange : word ∉ magics) : ofMagic? word = none := by
  cases known : ofMagic? word with
  | none => rfl
  | some kind => exact absurd (magic_of_ofMagic? known ▸ kind.magic_mem) strange

end PageKind

namespace Paging

/-! ## Page headers -/

namespace PageHeader

def form : HeaderForm PageHeader where
  size := size
  linkCount := 2
  magics := PageKind.magics
  magic header := header.kind.magic
  links header := [header.next, header.prev]
  truncated := .pageHeaderTruncated
  badMagic := .badPageMagic

theorem decode_parts (page : Bytes) : form.parts <$> decode page = form.read page := by
  by_cases short : page.length < size
  · rw [HeaderForm.read_of_short short, decode, if_pos short]
    rfl
  have room : form.size ≤ page.length := Nat.le_of_not_lt short
  by_cases known : page.word16 0 ∈ form.magics
  · obtain ⟨kind, magic_eq⟩ := PageKind.exists_of_mem_magics known
    rw [HeaderForm.read_of_known room known, decode, if_neg short]
    simp only [← magic_eq, PageKind.ofMagic?_magic]
    simp only [form, decodeLinks, map_bind, map_pure, bind_assoc, pure_bind]
    rfl
  · rw [HeaderForm.read_of_strange room known, decode, if_neg short]
    simp only [PageKind.ofMagic?_of_strange known]
    rfl

theorem lawful : form.Lawful encode decode where
  size_eq := rfl
  length_links _ := rfl
  magic_mem header := header.kind.magic_mem
  parts_inj {header header'} same := by
    obtain ⟨kind_eq, links_eq⟩ := Prod.mk.inj same
    obtain ⟨kind, next, prev⟩ := header
    obtain ⟨kind', next', prev'⟩ := header'
    obtain rfl := PageKind.magic_inj kind_eq
    cases links_eq
    rfl
  encode_eq header page := by
    simp [form, encode, toBytes, HeaderForm.toBytes]
  decode_parts := decode_parts

theorem length_encode (header : PageHeader) {page : Bytes} (room : size ≤ page.length) :
    (header.encode page).length = page.length :=
  lawful.length_encode header room

theorem drop_encode (header : PageHeader) (page : Bytes) :
    (header.encode page).drop size = page.drop size :=
  lawful.drop_encode header page

structure Fits (header : PageHeader) : Prop where
  next : LinkFits header.next
  prev : LinkFits header.prev

theorem fits_iff {header : PageHeader} :
    header.Fits ↔ ∀ link ∈ form.links header, LinkFits link := by
  simp only [form, List.forall_mem_cons, List.not_mem_nil, false_implies, implies_true, and_true]
  exact ⟨fun fits => ⟨fits.next, fits.prev⟩, fun ⟨next, prev⟩ => ⟨next, prev⟩⟩

theorem decode_encode {header : PageHeader} (fits : header.Fits) (page : Bytes) :
    decode (header.encode page) = .ok header :=
  lawful.decode_encode (fits_iff.mp fits) page

theorem decode_of_take_eq {first second : Bytes} (long : size ≤ first.length)
    (long' : size ≤ second.length) (same : first.take size = second.take size) :
    decode first = decode second :=
  lawful.decode_of_take_eq long long' same

theorem fits_of_decode {page : Bytes} {header : PageHeader}
    (read : decode page = .ok header) : header.Fits :=
  fits_iff.mpr (lawful.links_fit_of_decode read)

theorem decode_zeros (count : Nat) : ∃ error, decode (Bytes.zeros count) = .error error := by
  cases read : decode (Bytes.zeros count) with
  | error error => exact ⟨error, rfl⟩
  | ok header =>
      obtain ⟨heads, magic_eq, -⟩ := lawful.heads_of_decode read
      have room : size ≤ (Bytes.zeros count).length := heads.room
      rw [Bytes.length_zeros] at room
      obtain ⟨rest, rfl⟩ := Nat.exists_eq_add_of_le' room
      have front : (Bytes.zeros (rest + size)).word16 0 = 0 := by
        simp [size, Bytes.zeros, Bytes.word16, Bytes.slice, List.replicate_succ, Bytes.ofBigEndian]
      have zero : header.kind.magic = 0 := magic_eq.symm.trans front
      cases kind : header.kind <;> rw [kind] at zero <;> cases zero

end PageHeader

/-! ## The file header -/

namespace FileHeader

def form : HeaderForm FileHeader where
  size := size
  linkCount := 6
  magics := [validMagic]
  magic _ := validMagic
  links header :=
    [header.free.first, header.free.last, header.data.first, header.data.last,
      header.freeList.first, header.freeList.last]
  truncated := .fileHeaderTruncated
  badMagic := .badFileMagic

theorem decode_parts (page : Bytes) : form.parts <$> decode page = form.read page := by
  by_cases short : page.length < size
  · rw [HeaderForm.read_of_short short, decode, if_pos short]
    rfl
  have room : form.size ≤ page.length := Nat.le_of_not_lt short
  by_cases known : page.word16 0 = validMagic
  · have known' : page.word16 0 ∈ form.magics := List.mem_singleton.mpr known
    rw [HeaderForm.read_of_known room known', decode, if_neg short,
      if_neg (not_not_intro known), known]
    simp only [form, decodeLinks, map_bind, map_pure, bind_assoc, pure_bind]
    rfl
  · have strange : page.word16 0 ∉ form.magics := mt List.mem_singleton.mp known
    rw [HeaderForm.read_of_strange room strange, decode, if_neg short, if_pos known]
    rfl

theorem lawful : form.Lawful encode decode where
  size_eq := rfl
  length_links _ := rfl
  magic_mem _ := List.mem_singleton_self _
  parts_inj {header header'} same := by
    have links_eq := (Prod.mk.inj same).2
    obtain ⟨⟨_, _⟩, ⟨_, _⟩, ⟨_, _⟩⟩ := header
    obtain ⟨⟨_, _⟩, ⟨_, _⟩, ⟨_, _⟩⟩ := header'
    cases links_eq
    rfl
  encode_eq header page := by
    simp [form, encode, toBytes, HeaderForm.toBytes]
  decode_parts := decode_parts

theorem length_encode (header : FileHeader) {page : Bytes} (room : size ≤ page.length) :
    (header.encode page).length = page.length :=
  lawful.length_encode header room

def Fits (header : FileHeader) : Prop :=
  ∀ kind, LinkFits (header.ends kind).first ∧ LinkFits (header.ends kind).last

theorem Fits.links {header : FileHeader} (fits : header.Fits) :
    ∀ link ∈ form.links header, LinkFits link := by
  simp only [form, List.forall_mem_cons, List.not_mem_nil, false_implies, implies_true, and_true]
  exact ⟨(fits .free).1, (fits .free).2, (fits .data).1, (fits .data).2, (fits .freeList).1,
    (fits .freeList).2⟩

theorem decode_encode {header : FileHeader} (fits : header.Fits) (page : Bytes) :
    decode (header.encode page) = .ok header :=
  lawful.decode_encode fits.links page

theorem fits_empty : empty.Fits := by
  intro kind
  cases kind <;> exact ⟨linkFits_header, linkFits_header⟩

theorem no_pageHeader {page : Bytes} {header : FileHeader} (read : decode page = .ok header) :
    (PageHeader.decode page).toOption = none := by
  obtain ⟨-, magic_eq, -⟩ := lawful.heads_of_decode read
  cases read' : PageHeader.decode page with
  | error error => rfl
  | ok header' =>
      obtain ⟨-, magic_eq', -⟩ := PageHeader.lawful.heads_of_decode read'
      have same : header'.kind.magic = validMagic := magic_eq'.symm.trans magic_eq
      cases kind : header'.kind <;> rw [kind] at same <;> cases same

end FileHeader

/-! ## Both headers are exact -/

/--
The two headers are written and read in exact forms, and the file header has the ends of
each list at the place of its kind.
-/
structure HeadersAreExact : Prop where
  fileHeader : FileHeader.form.Exact FileHeader.encode FileHeader.decode
  pageHeader : PageHeader.form.Exact PageHeader.encode PageHeader.decode
  ends_placed : ∀ (header : FileHeader) (page : Bytes) (kind : PageKind),
    FileHeader.size ≤ page.length →
      (header.encode page).word64 (2 + 16 * kind.index) = (header.ends kind).first ∧
        (header.encode page).word64 (10 + 16 * kind.index) = (header.ends kind).last

/-- Headers are exact, whatever they are written over and whatever follows them. -/
theorem headers_are_exact : HeadersAreExact where
  fileHeader := FileHeader.lawful.exact
  pageHeader := PageHeader.lawful.exact
  ends_placed header page kind _ := by
    have written := FileHeader.lawful.linksFrom_toBytes header (page.drop FileHeader.form.size)
    rw [← FileHeader.lawful.encode_eq_append] at written
    simp only [FileHeader.form, linksFrom, List.cons.injEq, and_true] at written
    obtain ⟨free_first, free_last, data_first, data_last, list_first, list_last⟩ := written
    cases kind with
    | free => exact ⟨free_first, free_last⟩
    | data => exact ⟨data_first, data_last⟩
    | freeList => exact ⟨list_first, list_last⟩

/-- A link with its top bit set is written, and is a negative number when it is read. -/
example :
    PageHeader.decode (PageHeader.encode ⟨.data, 1, 2 ^ 63⟩ (Bytes.zeros PageHeader.size)) =
      .error (.invalidFormat (.negativeLink Int64.minValue)) := by
  cbv

end Paging

end DirectoryStore
