import ScriptListing.Cipher
import ScriptListing.Dump
import ScriptListing.FileTree
import ScriptListing.Path

/-! Archives: directories of dumps, one file per package, plain or encrypted. What was
read of a package once is kept. -/
namespace ScriptListing

structure Archive where
  root : String
  key : List UInt8
  packages : List (String × List UInt8) := []
  deriving Inhabited

namespace Archive

def openAt (t : FileTree) (directory : String) (key : List UInt8) : Attempt Archive :=
  inside "open archive" do
    match t.stat directory with
    | .error e => fail (.file e)
    | .ok (.file _) => fail (.notDirectory directory)
    | .ok .directory =>
      if key.length ≠ Cipher.keySize then fail (.keyLength key.length)
      else return { root := directory, key }

structure Candidate where
  path : String
  encrypted : Bool
  deriving DecidableEq, Repr

def endings : List String := [".json", ".yaml", ".yml"]

/-- The files that may hold a package in the order they are tried: for each ending the
plain one, then the encrypted one. -/
def candidates (root package : String) : List Candidate :=
  let base := Path.join root package
  endings.flatMap fun ending => [⟨base ++ ending, false⟩, ⟨base ++ ending ++ ".aes", true⟩]

def content (key : List UInt8) (c : Candidate) (bytes : List UInt8) : Attempt (List UInt8) :=
  if c.encrypted then inside c.path (Cipher.decrypt key bytes) else .ok bytes

/-- The content of the first file that is there. Any other failure to read one ends the
search. -/
def search (t : FileTree) (key : List UInt8) : List Candidate → Attempt (List UInt8)
  | [] => fail .notFound
  | c :: rest =>
    match t.read c.path with
    | .ok bytes => content key c bytes
    | .error e => if e.reason = .notExist then search t key rest else fail (.file e)

/-- A package as it was read first, or from its file now. -/
def package (a : Archive) (t : FileTree) (name : String) : Attempt (List UInt8) :=
  match a.packages.lookup name with
  | some bytes => .ok bytes
  | none => search t a.key (candidates a.root name)

def keep (a : Archive) (name : String) (bytes : List UInt8) : Archive :=
  match a.packages.lookup name with
  | some _ => a
  | none => { a with packages := (name, bytes) :: a.packages }

def load (a : Archive) (t : FileTree) (canceled : Bool) (name : String) :
    Attempt Class × Archive :=
  if canceled then (fail .canceled, a)
  else
    match ObjectPath.split name with
    | .error f => (.error f, a)
    | .ok object =>
      match a.package t object.package with
      | .error f => (.error (f.within name), a)
      | .ok bytes =>
        (inside name (do
          let c ← Dump.decode bytes object.exportName
          return { c with path := name }),
          a.keep object.package bytes)

end Archive
end ScriptListing
