import MediumClone.Support.JsText

/-!
# Attachments — Storage

`PrivateAttachmentStorage` (`src/attachments/private-attachment-storage.ts`), which keeps a file for
every storage key directly below its root.

`basename` and `resolve` are those of `node:path` on POSIX, `resolve` with an absolute first
argument.  A disk says of every path what `readFile` makes of it.
-/

namespace MediumClone.Attachments
open Js

/-! ### Paths -/

/-- What follows the last separator, but for separators at the end. -/
def basename (path : Str) : Str :=
  ((path.reverse.dropWhile (· == '/')).takeWhile (· != '/')).reverse

/-- The segments of a path, with `.` and `..` carried out. -/
def normalize (path : Str) : List Str :=
  (path.splitOn '/').foldl (fun segments segment =>
    if segment = [] ∨ segment = ['.'] then segments
    else if segment = ['.', '.'] then segments.dropLast
    else segments ++ [segment]) []

/-- `resolve(base, path)` where `base` is absolute. -/
def resolve (base path : Str) : Str :=
  '/' :: ['/'].intercalate
    (normalize (if path.head? = some '/' then path else base ++ '/' :: path))

/-! ### The storage -/

abbrev Buffer := List UInt8

/-- What `readFile` gives: the bytes, or an error and its `code`. -/
inductive ReadResult where
  | content (body : Buffer)
  | rejects (code : Option Str)
  deriving DecidableEq

abbrev Disk := Str → ReadResult

structure InvalidAttachmentStorageKeyError where
  deriving DecidableEq

def DEFAULT_ROOT : Str := "storage/private".toList

structure PrivateAttachmentStorage where
  root : Str

/-- `new PrivateAttachmentStorage(rootPath)`, in the working directory `cwd`. -/
def PrivateAttachmentStorage.create (cwd : Str) (rootPath : Option Str) :
    PrivateAttachmentStorage where
  root :=
    let rootPath := trim (rootPath.getD DEFAULT_ROOT)
    resolve cwd (if rootPath = [] then DEFAULT_ROOT else rootPath)

def PrivateAttachmentStorage.resolvePath (storage : PrivateAttachmentStorage) (storageKey : Str) :
    Except InvalidAttachmentStorageKeyError Str :=
  if storageKey = [] ∨ basename storageKey ≠ storageKey then .error {}
  else if ¬ (storage.root ++ ['/']) <+: resolve storage.root storageKey then .error {}
  else .ok (resolve storage.root storageKey)

/-- `read`, whose error has no `code` when it is that of `resolvePath`. -/
def PrivateAttachmentStorage.read (storage : PrivateAttachmentStorage) (disk : Disk)
    (storageKey : Str) : ReadResult :=
  match storage.resolvePath storageKey with
  | .error _ => .rejects none
  | .ok filePath => disk filePath

/-- What an operation asks of the file system. -/
inductive FileSystemCall where
  | mkdir (path : Str)
  | writeFile (path : Str) (content : Buffer)
  | readFile (path : Str)
  | rm (path : Str)
  deriving DecidableEq

def FileSystemCall.path : FileSystemCall → Str
  | .mkdir path | .writeFile path _ | .readFile path | .rm path => path

inductive StorageOperation where
  | write (content : Buffer)
  | read
  | remove

/-- The calls of an operation.  A call that fails is the last one. -/
def PrivateAttachmentStorage.calls (storage : PrivateAttachmentStorage) (storageKey : Str) :
    StorageOperation → List FileSystemCall
  | .write content => .mkdir storage.root :: onPath fun path => .writeFile path content
  | .read => onPath .readFile
  | .remove => onPath .rm
where
  /-- The call for the path of the key, unless `resolvePath` throws. -/
  onPath (call : Str → FileSystemCall) : List FileSystemCall :=
    match storage.resolvePath storageKey with
    | .error _ => []
    | .ok filePath => [call filePath]

theorem PrivateAttachmentStorage.read_eq {storage : PrivateAttachmentStorage} {disk : Disk}
    {storageKey filePath : Str} (h : storage.resolvePath storageKey = .ok filePath) :
    storage.read disk storageKey = disk filePath := by
  rw [read, h]

end MediumClone.Attachments
