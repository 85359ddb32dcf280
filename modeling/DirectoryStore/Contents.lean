import DirectoryStore.Bytes

/-!
# The contents of a store

A store asks for the number of its bytes at every access, so its contents carry
that number along with the bytes.  The number adds nothing: contents with the
same bytes are equal, and each operation does to the bytes what the operation of
the same name does to a byte string.
-/

namespace DirectoryStore

/-- Bytes that know how many they are. -/
structure Contents where
  bytes : Bytes
  size : Nat
  size_eq : size = bytes.length
  deriving DecidableEq, Repr

namespace Contents

@[ext] theorem ext {first second : Contents}
    (same : first.bytes = second.bytes) : first = second := by
  obtain ⟨bytes, size, size_eq⟩ := first
  obtain ⟨bytes', size', size_eq'⟩ := second
  cases same
  subst size_eq size_eq'
  rfl

def ofBytes (bytes : Bytes) : Contents := ⟨bytes, bytes.length, rfl⟩

def empty : Contents := ofBytes []

def slice (contents : Contents) (offset len : Nat) : Bytes :=
  contents.bytes.slice offset len

def resize (contents : Contents) (size : Nat) : Contents :=
  ⟨contents.bytes.resize size, size, (Bytes.length_resize _ _).symm⟩

def overwrite (contents : Contents) (offset : Nat) (patch : Bytes) : Contents :=
  if nonempty : patch = [] then contents
  else
    ⟨contents.bytes.overwrite offset patch,
      max contents.size (offset + patch.length), by
        rw [Bytes.length_overwrite _ _ _ nonempty, contents.size_eq]⟩

def append (contents : Contents) (patch : Bytes) : Contents :=
  ⟨contents.bytes ++ patch, contents.size + patch.length, by
    rw [List.length_append, contents.size_eq]⟩

/-! ## The bytes after each operation -/

@[simp] theorem bytes_ofBytes (bytes : Bytes) : (ofBytes bytes).bytes = bytes :=
  rfl

@[simp] theorem bytes_resize (contents : Contents) (size : Nat) :
    (contents.resize size).bytes = contents.bytes.resize size :=
  rfl

@[simp] theorem bytes_overwrite (contents : Contents) (offset : Nat)
    (patch : Bytes) :
    (contents.overwrite offset patch).bytes =
      contents.bytes.overwrite offset patch := by
  by_cases nonempty : patch = []
  · simp [overwrite, Bytes.overwrite, nonempty]
  · simp [overwrite, nonempty]

@[simp] theorem bytes_append (contents : Contents) (patch : Bytes) :
    (contents.append patch).bytes = contents.bytes ++ patch :=
  rfl

end Contents

end DirectoryStore
