/-
# `Ssa.Script.Step` — scripts and what comes of them

Every step of a script has a reply: what it gave, or why it gave nothing, and what was noted down
meanwhile.  A step that fails does not end the script.  A step may hold a context, module or engine
while further steps are done, and dispose of it after them.
-/
import Ssa.Script.Query

namespace Ssa.Script

/-- A value to be passed: made on the spot, or one that has a name. -/
inductive Argument where
  | made (r : GenericRecipe)
  | bound (name : String)
deriving Repr, Inhabited

/-- A function to be run: by its own name, or by the name that a handle has in the script. -/
inductive Target where
  | named (function : String)
  | bound (name : String)
deriving DecidableEq, Repr, Inhabited

/-- What a step does.  Things are spoken of by their names in the script. -/
inductive Command where
  | createContext
  | globalContext
  | createModule (name : String) (context : Option String)
  | identify (context : Option String) (name : String) (body : Option (List Ty))
  | same (a b : String)
  | equal (a b : String)
  /-- Compare a thing with what no step gives. -/
  | equalOther (a : String)
  | countDistinct (names : List String)
  | describe (of_ : String)
  | dispose (of_ : String)
  | ask (of_ word : String)
  | forget (names : List String)
  | liveCount (kind : Option String)
  | find (id kind : Datum)
  | addFunction (m name : String) (type : Ty)
  | declareOutside (m name : String) (type : Ty)
  | bare (fn : String)
  | lookup (m name : String)
  | getOrDeclare (m name : String) (type : Ty)
  | addGlobal (m name : String) (type : Ty)
  | setInitializer (m global : String) (value : Recipe)
  | build (m : String) (draft : Draft)
  | buildBody (m fn : String) (blocks : List Draft.Block)
  | render (m : String)
  | renderToFile (m path : String)
  | emit (m path level cpu : String) (host : Triple)
  | listFiles
  | checkText (name text : String)
  | appendBlock (fn label : String)
  | parameter (fn : String) (index : Int)
  | createInterpreter (m : String)
  | createCompiled (m level : String)
  | makeValue (a : Argument)
  | run (engine : String) (f : Target) (args : List Argument)
deriving Repr, Inhabited

/-- A step, with the name for what it gives. -/
inductive Step where
  | plain (c : Command) (label : Option String)
  /-- Hold a thing while steps are done, then dispose of it. -/
  | holding (of_ : String) (steps : List Step)
deriving Repr, Inhabited

/-- The reply to a step: its outcome with the cells as they were then, and what was noted down. -/
inductive Reply where
  | trouble (t : Trouble) (notes : List Event)
  | gave (t : Thing) (cells : Array Cell) (notes : List Event)
  | held (replies : List Reply) (notes : List Event)
deriving Repr, Inhabited

/-! ## Commands -/

/-- Mention the named structures of a type in the context of a module. -/
def typeIn (m : Nat) (t : Ty) : Doing Unit :=
  act do Session.mention (← Session.moduleRecord m).context t

/-- Dispose of a thing. -/
def dispose : Thing → Doing Unit
  | .context id => act (Session.disposeContext id)
  | .module id => act (Session.disposeModule id)
  | .engine id => act (Session.disposeEngine id)
  | _ => unfit

/-- Identify a named structure, and give it its body if there is one.  The label stands for the
structure even if it has a body already and is refused another. -/
def identify (context : Option String) (name : String) (body : Option (List Ty))
    (label : Option String) : Doing Thing := do
  let c ← act (Session.contextOr (← context? context))
  let entry ← act (Session.identify c name)
  match body with
  | none => pure (.named c entry)
  | some fields =>
    match label with
    | some l => bind l (.named c entry)
    | none => pure ()
    return .named c (← act (Session.defineBody c name fields))

/-- The number of different things among those that names stand for. -/
def countDistinct (names : List String) : Doing Nat := do
  let entries ← names.mapM entry
  return (entries.foldl (fun kept e => if kept.any e.equal then kept else e :: kept) []).length

/-- The thing of a number in the registry. -/
def find (id kind : Datum) : Doing Thing := do
  act (do Session.lift ((← get).registry.find id kind))
  let number := (id.keyNumber?.getD 0).toNat
  match kind with
  | .text "context" => pure (.context number)
  | .text "module" => pure (.module number)
  | _ => pure (.engine number)

/-- Bind the initial value of a global variable. -/
def setInitializer (m global : String) (value : Recipe) : Doing Unit := do
  let m ← module m
  match ← thing global with
  | .global g .. =>
    typeIn m value.type
    let c ← act do
      let context := (← Session.moduleRecord m).context
      Session.lift (value.make (← Session.contextRecord context).types)
    act (Session.setInitializer m g c)
  | _ => unfit

/-- Write the text of a module to a file. -/
def renderToFile (m path : String) : Doing Thing := do
  let m ← module m
  let p := Path.read path
  act (Session.renderToFile m p)
  let text ← act (Session.render m)
  let same := match (← get).session.files.read p with
    | .ok octets => octets == Files.octetsOf text
    | .error _ => false
  pure (.written p same)

/-- Emit a module as an object. -/
def emit (m path level cpu : String) (host : Triple) : Doing Thing := do
  let m ← module m
  let level ← lift (Level.read level)
  let cpu ← lift (Processor.read cpu)
  let p := Path.read path
  act (Session.emit m host cpu level p)
  pure (.text p.text)

/-- The value that an argument is. -/
def Argument.get : Argument → Doing GenericValue
  | .made r => act (Session.makeValue r)
  | .bound name => do
    match ← thing name with
    | .value g | .result (some g) => pure g
    | _ => unfit

/-- The function that is to be run. -/
def Target.get : Target → Doing Session.Callee
  | .named f => pure (.named f)
  | .bound name => return .handle (← handle name)

/-- Do what a step does that is about functions and global variables of a module. -/
def onModule : Command → Doing Thing
  | .addFunction m name t => do
    let m ← module m
    typeIn m t
    ofHandle (← act (Session.addFunction m name t))
  | .declareOutside m name t => do
    let m ← module m
    typeIn m t
    return .outside (← act (Session.declareOutside m name t)) name
  | .bare fn => do ofHandle (← act (Session.toBare (← handle fn)))
  | .lookup m name => do
    match ← act (Session.lookup (← module m) name) with
    | some h => ofHandle h
    | none => pure .nothing
  | .getOrDeclare m name t => do
    let m ← module m
    typeIn m t
    ofHandle (← act (Session.getOrDeclare m name t))
  | .addGlobal m name t => do
    let m ← module m
    typeIn m t
    ofGlobal (← act (Session.addGlobal m name t))
  | .setInitializer m g v => do
    setInitializer m g v
    pure .nothing
  | .build m d => do
    act (Session.build (← module m) d)
    pure .nothing
  | .buildBody m fn blocks => do
    discard (module m)
    act (Session.buildBody (← handle fn) blocks)
    pure .nothing
  | .render m => do return .text (← act (Session.render (← module m)))
  | .renderToFile m path => renderToFile m path
  | .emit m path level cpu host => emit m path level cpu host
  | .appendBlock fn label => do
    return .block (← act (Session.appendBlock (← handle fn) label))
  | .parameter fn index => do
    let (name, t) ← act (Session.parameter (← handle fn) index)
    pure (.parameter name t)
  | _ => unfit

/-- Do what a step does. -/
def perform (label : Option String) : Command → Doing Thing
  | .createContext => return .context (← act Session.createContext)
  | .globalContext => return .context (← act Session.globalContextId)
  | .createModule name c => do
    return .module (← act (Session.createModule name (← context? c)))
  | .identify c name body => identify c name body label
  | .same a b => do return .truth ((← entry a).same (← entry b))
  | .equal a b => do return .equality ((← entry a).equal (← entry b))
  | .equalOther a => do
    discard (entry a)
    pure (.truth false)
  | .countDistinct names => do return .count (← countDistinct names)
  | .describe of_ => do return .text (← describe (← thing of_))
  | .dispose of_ => do
    dispose (← thing of_)
    pure .nothing
  | .ask of_ word => do askByWord (← thing of_) word
  | .forget names => do
    forgetAll names
    pure .nothing
  | .liveCount kind => return .count ((← get).session.registry.liveCount kind)
  | .find id kind => find id kind
  | .listFiles => return .files (← get).session.files
  | .checkText name text => do
    lift (checkAssembly name text)
    pure .nothing
  | .createInterpreter m => do return .engine (← act (Session.createInterpreter (← module m)))
  | .createCompiled m level => do
    let m ← module m
    return .engine (← act (Session.createCompiled m (← lift (Level.read level))))
  | .makeValue a => do return .value (← a.get)
  | .run e f args => do
    let e ← engine e
    let f ← f.get
    let args ← args.mapM Argument.get
    return .result (← act (Session.run e f args))
  | c => onModule c

/-! ## Steps -/

/-- Hold what a name stands for: a context, module or engine. -/
def holdNamed (name : String) : Doing Thing := do
  let t ← thing name
  match t.number? with
  | some id => do
    hold id
    pure t
  | none => throw (.failed .typeMismatch)

/-- Do something, and answer with its outcome. -/
def outcomeOf {α : Type} (d : Doing α) : StateM Desk (Except Trouble α) := d.run

/-- Give a thing its name, if it has one and is something. -/
def label (name : Option String) (t : Thing) : Doing Unit :=
  match name, t with
  | _, .nothing => pure ()
  | some n, t => bind n t
  | none, _ => pure ()

/-- What has been noted down since a number of notes. -/
def notesSince (count : Nat) : StateM Desk (List Event) :=
  return (← get).session.log.drop count

mutual

/-- Do a step. -/
def Step.run : Step → StateM Desk Reply
  | .plain c name => do
    let before := (← get).session.log.length
    let outcome ← outcomeOf do
      let t ← perform name c
      label name t
      pure t
    discard (outcomeOf settle)
    let notes ← notesSince before
    let cells := (← get).session.storage.cells
    pure (match outcome with
      | .ok t => .gave t cells notes
      | .error t => .trouble t notes)
  | .holding of_ steps => do
    let before := (← get).session.log.length
    match ← outcomeOf (holdNamed of_) with
    | .error t => return .trouble t (← notesSince before)
    | .ok held =>
      let replies ← runAll steps
      let outcome ← outcomeOf (dispose held)
      discard (outcomeOf (do letGo; settle))
      let notes ← notesSince before
      pure (match outcome with
        | .ok () => .held replies notes
        | .error t => .trouble t notes)

/-- Do steps in order. -/
def runAll : List Step → StateM Desk (List Reply)
  | [] => pure []
  | s :: rest => do
    let r ← s.run
    let rs ← runAll rest
    pure (r :: rs)

end

/-- Do a script in a directory with files. -/
def run (files : Files) (steps : List Step) : List Reply := ((runAll steps).run (.fresh files)).1

end Ssa.Script
