/-! # Path texts

A path is a text with slashes between its segments. Empty segments and segments `.` count for
nothing, except a `.` at the very start, and the text of a path is kept as it was written.
-/

namespace BlockLang.Path

/-- The segments of a text between slashes. There is always one, and it is empty
where a slash has nothing on one side. -/
def segments : List Char → List (List Char)
  | [] => [[]]
  | c :: rest =>
    match segments rest with
    | [] => [[c]]
    | first :: more => if c = '/' then [] :: first :: more else (c :: first) :: more

def joined : List (List Char) → List Char
  | [] => []
  | [segment] => segment
  | segment :: more => segment ++ '/' :: joined more

/-- Whether a segment counts for nothing: it is empty, or it stands for the
directory that it is in. -/
def isIdle (segment : List Char) : Bool := segment = [] || segment = ['.']

/-- A path as its start and its segments. -/
structure Parts where
  start : List Char
  body : List (List Char)

def Parts.text (p : Parts) : List Char := p.start ++ joined p.body

def parts (path : String) : Parts :=
  match path.toList with
  | '/' :: rest => ⟨['/'], segments rest⟩
  | ['.'] => ⟨['.'], []⟩
  | '.' :: '/' :: rest => ⟨['.'], segments ('/' :: rest)⟩
  | cs => ⟨[], segments cs⟩

def dropIdleEnd (body : List (List Char)) : List (List Char) :=
  (body.reverse.dropWhile isIdle).reverse

/-- The last segment that counts, and all before it. -/
def splitLast? (path : String) : Option (Parts × List Char) :=
  let p := parts path
  match p.body.reverse.dropWhile isIdle with
  | [] => none
  | last :: before => some (⟨p.start, before.reverse⟩, last)

/-- The name at the end of a path. A path that ends in `..` has none. -/
def fileName? (path : String) : Option String :=
  match splitLast? path with
  | some (_, last) => if last = ['.', '.'] then none else some (String.ofList last)
  | none => none

def parent? (path : String) : Option String :=
  match splitLast? path with
  | some (before, _) => some (String.ofList (before.start ++ joined (dropIdleEnd before.body)))
  | none => if (parts path).start = ['.'] then some "" else none

/-- A path seen from another one. -/
def join (base path : String) : String :=
  if path.toList.head? = some '/' then path
  else if base.isEmpty || base.toList.getLast? = some '/' then base ++ path
  else base ++ "/" ++ path

def withFileName (path name : String) : String :=
  match fileName? path, parent? path with
  | some _, some parent => join parent name
  | _, _ => join path name

/-- A name before and behind its last dot. A dot at the start divides
nothing. -/
def splitExtension (name : String) : String × Option String :=
  match name.toList.reverse.span (· != '.') with
  | (behind, _ :: before) =>
    if before.isEmpty then (name, none)
    else (String.ofList before.reverse, some (String.ofList behind.reverse))
  | (_, []) => (name, none)

def extension? (path : String) : Option String :=
  (fileName? path).bind fun name => (splitExtension name).2

def withExtension (path extension : String) : String :=
  match splitLast? path, fileName? path with
  | some (before, _), some name =>
    let stem := (splitExtension name).1.toList
    String.ofList (Parts.text ⟨before.start, before.body ++ [stem]⟩) ++ "." ++ extension
  | _, _ => path

/-- The path of the file that is written before it takes the place of the file
at a path. It is in the same directory, so that moving it is one step. -/
def temporary (path : String) : String := withFileName path ((fileName? path).getD "" ++ ".tmp")

end BlockLang.Path
