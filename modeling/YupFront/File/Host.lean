import YupFront.File.System

/-! The answers that a reader of files gets. A host need not give all of them by one and the same file
system. -/

namespace YupFront

/-- What a reader of a file asks for and is told. Each question has an answer of its own: files come
and go, and who may ask for one thing may be refused another. -/
structure Host where
  isThere : String → Bool
  isFile : String → Bool
  canonical : String → Except SystemError Location
  size : Location → Except SystemError Nat
  read : Location → Except SystemError ByteArray

namespace Host

def readText (host : Host) (l : Location) : Except SystemError String :=
  match host.read l with
  | .error e => .error e
  | .ok bytes => textOf bytes

/-- The size that is told of a file is that of the bytes that are read. -/
def Sized (host : Host) : Prop :=
  ∀ l size bytes, host.size l = .ok size → host.read l = .ok bytes → bytes.size = size

end Host

namespace FileSystem

/-- A host that answers every question by a file system that does not change. -/
def host (s : FileSystem) : Host where
  isThere path := (s.resolve path).isOk
  isFile path :=
    match s.resolve path with
    | .ok (_, .file _) => true
    | _ => false
  canonical := s.canonical
  size l := (s.contents l).map ByteArray.size
  read := s.contents

instance : Coe FileSystem Host := ⟨host⟩

theorem sized_host (s : FileSystem) : s.host.Sized := by
  intro l size bytes hsize hread
  have hbytes : s.contents l = .ok bytes := hread
  have hmap : (s.contents l).map ByteArray.size = .ok size := hsize
  rw [hbytes] at hmap
  exact Except.ok.inj hmap

end FileSystem

end YupFront
