import DeskScript.Console.Terminal

/-!
A file system in memory. A path is followed from the top directory, name by name;
`.` stays, `..` goes back, and a slash at the end asks for a directory. There is
nothing above the top.
-/

namespace DeskScript

inductive FileNode where
  | file (text : String)
  | dir (entries : List (String × FileNode))

namespace FileNode

def isDir : FileNode → Bool
  | dir _ => true
  | file _ => false

def entry? : FileNode → String → Option FileNode
  | dir entries, name => Table.get? entries name
  | file _, _ => none

/-- The node at a row of names. -/
def at? : FileNode → List String → Option FileNode
  | node, [] => some node
  | node, name :: names => (node.entry? name).bind fun child => child.at? names

/-- Puts a node at a row of names whose directories are there. -/
def put (new : FileNode) : List String → FileNode → FileNode
  | [], _ => new
  | name :: names, dir entries =>
    dir (Table.put entries name (put new names ((Table.get? entries name).getD (dir []))))
  | _ :: _, file text => file text

/-- Removes what is at a row of names. -/
def remove : List String → FileNode → FileNode
  | [name], dir entries => dir (entries.filter (·.1 != name))
  | name :: names, dir entries =>
    match Table.get? entries name with
    | some child => dir (Table.put entries name (remove names child))
    | none => dir entries
  | _, node => node

end FileNode

namespace Disk

/-! ## Paths -/

/-- A path taken apart. -/
structure Path where
  absolute : Bool
  names : List String
  /-- Does it end in a slash? -/
  slash : Bool

def splitSlashes (cs : List Char) (name : List Char) : List String :=
  match cs with
  | [] => if name.isEmpty then [] else [String.ofList name.reverse]
  | '/' :: cs =>
    if name.isEmpty then splitSlashes cs [] else String.ofList name.reverse :: splitSlashes cs []
  | c :: cs => splitSlashes cs (c :: name)

def Path.ofString (s : String) : Path :=
  let cs := s.toList
  ⟨cs.head? == some '/', splitSlashes cs [], cs.getLast? == some '/'⟩

/-- The path of the directory around a path, as text: `.` counts only as the first name. -/
def parent? (s : String) : Option String :=
  let p := Path.ofString s
  let names := match p.names with
    | "." :: rest => if p.absolute then rest.filter (· != ".") else "." :: rest.filter (· != ".")
    | names => names.filter (· != ".")
  if names.isEmpty then none
  else some ((if p.absolute then "/" else "") ++ String.intercalate "/" names.dropLast)

/-- Follows names from the directory at `here`, whose own names stand in reverse. -/
def follow (root : FileNode) : List String → List String → Except FileFailure (List String)
  | here, [] => .ok here
  | here, name :: names =>
    match root.at? here.reverse with
    | none => .error .notFound
    | some (.file _) => .error .notDirectory
    | some node =>
      if name == "." then follow root here names
      else if name == ".." then
        match here with
        | [] => .error .notFound
        | _ :: above => follow root above names
      else
        match node.entry? name with
        | none => .error .notFound
        | some _ => follow root (name :: here) names

/-- The names from the top to what a path means. -/
def locate (root : FileNode) (p : Path) : Except FileFailure (List String × FileNode) := do
  if p.absolute || (p.names.isEmpty && !p.slash) then throw .notFound
  let names := (← follow root [] p.names).reverse
  match root.at? names with
  | none => throw .notFound
  | some (.file text) =>
    if p.slash then throw .notDirectory
    return (names, .file text)
  | some node => return (names, node)

/-- Where a path would make something new: its directory, its last name, and what is there. The
last name is missing for `.` and `..`. -/
def target (root : FileNode) (p : Path) :
    Except FileFailure (List String × Option String × Option FileNode) := do
  if p.absolute then throw .notFound
  match p.names.getLast? with
  | none => throw .notFound
  | some last =>
    let above := (← follow root [] p.names.dropLast).reverse
    match root.at? above with
    | some (.dir entries) =>
      if last == "." || last == ".." then return (above, none, none)
      return (above, some last, Table.get? entries last)
    | _ => throw .notDirectory

/-! ## Files -/

def readFile (root : FileNode) (path : String) : Except FileFailure String := do
  match ← locate root (.ofString path) with
  | (_, .file text) => return text
  | (_, .dir _) => throw .isDirectory

def writeFile (root : FileNode) (path content : String) : Except FileFailure FileNode := do
  let p := Path.ofString path
  match ← target root p with
  | (_, none, _) | (_, _, some (.dir _)) => throw .isDirectory
  | (above, some name, _) =>
    if p.slash then throw .isDirectory
    return FileNode.put (.file content) (above ++ [name]) root

/-- Makes one directory. -/
def makeDir (root : FileNode) (path : String) : Except FileFailure FileNode := do
  match ← target root (.ofString path) with
  | (_, none, _) | (_, _, some _) => throw .exists_
  | (above, some name, none) => return FileNode.put (.dir []) (above ++ [name]) root

def isDirectory (root : FileNode) (path : String) : Bool :=
  match locate root (.ofString path) with
  | .ok (_, node) => node.isDir
  | .error _ => false

/-- Makes a directory and those around it that are missing. The number exceeds the number of names
in the path. -/
def makeDirs : Nat → FileNode → String → Except FileFailure Unit × FileNode
  | 0, root, _ => (.error .notFound, root)
  | n + 1, root, path =>
    let unlessThere (root : FileNode) (f : FileFailure) : Except FileFailure Unit × FileNode :=
      if isDirectory root path then (.ok (), root) else (.error f, root)
    if path.isEmpty then (.ok (), root)
    else
      match makeDir root path with
      | .ok root => (.ok (), root)
      | .error .notFound =>
        match parent? path with
        | none => (.error .notFound, root)
        | some above =>
          match makeDirs n root above with
          | (.error f, root) => (.error f, root)
          | (.ok (), root) =>
            match makeDir root path with
            | .ok root => (.ok (), root)
            | .error f => unlessThere root f
      | .error f => unlessThere root f

/-- Deletes a file, or a directory with all that is in it. A directory cannot be deleted under the
name `.`, but what is in it can. -/
def delete (root : FileNode) (path : String) : Except FileFailure Unit × FileNode :=
  let p := Path.ofString path
  match locate root p with
  | .error f => (.error f, root)
  | .ok (names, _) =>
    match p.names.getLast? with
    | some "." => (.error (.other "Invalid argument (os error 22)"), FileNode.put (.dir []) names root)
    | some ".." => (.error (.other "Directory not empty (os error 39)"), root)
    | _ => (.ok (), FileNode.remove names root)

/-! ## Listings -/

/-- Rows of a listing in the order of their names. -/
def inOrder (rows : List (String × List (String × Option String))) :
    List (String × Option String) :=
  (rows.mergeSort fun a b => a.1 ≤ b.1).flatMap (·.2)

/-- What is at a path, with its text, and all that is below it. Names are in order, and a directory
stands before what is in it, without a text. The top directory has the empty path and no row. -/
def listing (path : String) : FileNode → List (String × Option String)
  | .file text => [(path, some text)]
  | .dir entries =>
    let above := if path.isEmpty then "" else path ++ "/"
    (if path.isEmpty then [] else [(above, none)]) ++
      inOrder (entries.map fun e => (e.1, listing (above ++ e.1) e.2))
termination_by node => sizeOf node
decreasing_by
  have := List.sizeOf_lt_of_mem ‹_ ∈ entries›
  have : sizeOf e = 1 + sizeOf e.1 + sizeOf e.2 := rfl
  simp_wf
  omega

/-- A file system made of paths and texts; a path that ends in a slash is a directory. -/
def ofFiles (files : List (String × String)) : FileNode :=
  files.foldl (fun root (path, text) =>
    let names := (Path.ofString path).names
    let (_, root) := match parent? path with
      | some above => makeDirs (names.length + 1) root above
      | none => (.ok (), root)
    if (Path.ofString path).slash then (makeDirs (names.length + 1) root path).2
    else (writeFile root path text).toOption.getD root) (.dir [])

end Disk

/-! ## A terminal in memory -/

/-- What was written to standard error. -/
inductive Complaint where
  | text (s : String)
  | record (j : Json)

structure Workplace where
  files : FileNode
  /-- What is left of standard input. -/
  input : List Char
  output : String
  complaints : List Complaint

namespace Workplace

/-- The next line of the input, without its end. -/
def takeLine (cs : List Char) : Option String × List Char :=
  if cs.isEmpty then (none, [])
  else
    let line := cs.takeWhile (· != '\n')
    match cs.dropWhile (· != '\n') with
    | [] => (some (String.ofList line), [])
    | _ :: rest =>
      let line := if line.getLast? == some '\r' then line.dropLast else line
      (some (String.ofList line), rest)

def onFiles (f : FileNode → Except FileFailure Unit × FileNode) :
    StateM Workplace (Except FileFailure Unit) := fun w =>
  let (r, files) := f w.files
  (r, { w with files })

def kept (root : FileNode) : Except FileFailure FileNode → Except FileFailure Unit × FileNode
  | .ok root => (.ok (), root)
  | .error f => (.error f, root)

/-- Adds an empty file unless it is there. -/
def touched (dir name : String) (root : FileNode) : FileNode :=
  let (_, root) := Disk.makeDirs (dir.length + 1) root dir
  let path := dir ++ "/" ++ name
  match Disk.readFile root path with
  | .ok _ => root
  | .error _ => (Disk.writeFile root path "").toOption.getD root

def terminal : Terminal (StateM Workplace) where
  readAll := fun w => (String.ofList w.input, { w with input := [] })
  readLine := fun w =>
    let (line, input) := takeLine w.input
    (line, { w with input })
  write s := modify fun w => { w with output := w.output ++ s }
  complain s := modify fun w => { w with complaints := w.complaints ++ [.text s] }
  record j := modify fun w => { w with complaints := w.complaints ++ [.record j] }
  readFile path := fun w => (Disk.readFile w.files path, w)
  writeFile path content := onFiles fun root => kept root (Disk.writeFile root path content)
  makeDirs path := onFiles fun root => Disk.makeDirs (path.length + 1) root path
  delete path := onFiles fun root => Disk.delete root path
  touch dir name := modify fun w => { w with files := touched dir name w.files }
  sleep _ := return

end Workplace

end DeskScript
