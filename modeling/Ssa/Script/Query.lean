/-
# `Ssa.Script.Query` — questions about things

What can be asked of a context, module, engine, function, value or result, each question by a word.
A thing that a question does not fit has no answer to it.  Some questions ask for something to be
done; those that cannot be put without saying more are known, but are refused.
-/
import Ssa.Script.Thing

namespace Ssa.Script

/-- A question. -/
inductive Query where
  | number | name | isGlobal | isDisposed | liveModules | insides | context
  | functions | verify | isValid | text
  | mode | module
  | isBare | moduleNumber | index | function | blocks | parameterCount | signature | returnType
  | parameterTypes | isVariadic | isDeclaration
  | value | isVoid | toInt | toFp | payload | pointer
  | isOpaque | isPacked | fields | declaration
  | description | self | dispose | dump | createContext | globalContext | createInterpreter
  | createCompiled | appendBlock
deriving DecidableEq, Repr, Inhabited

/-- The words for the questions. -/
def Query.words : List (String × Query) := [
  ("arena_id", .number), ("name", .name), ("is_global", .isGlobal), ("is_disposed", .isDisposed),
  ("live_modules", .liveModules), ("ir", .insides), ("context", .context),
  ("functions", .functions), ("verify", .verify), ("is_valid", .isValid),
  ("render_to_text", .text), ("mode", .mode), ("module", .module), ("is_bare", .isBare),
  ("module_id", .moduleNumber), ("index", .index), ("handle", .function), ("blocks", .blocks),
  ("parameter_count", .parameterCount), ("signature", .signature),
  ("return_type", .returnType), ("parameter_types", .parameterTypes),
  ("is_var_arg", .isVariadic), ("is_declaration", .isDeclaration), ("value", .value),
  ("is_void", .isVoid), ("to_int", .toInt), ("to_float", .toFp), ("payload", .payload),
  ("to_pointer", .pointer), ("is_opaque", .isOpaque), ("packed", .isPacked), ("elements", .fields),
  ("get_declaration", .declaration), ("__repr__", .description), ("__enter__", .self),
  ("dispose", .dispose), ("dump", .dump), ("create", .createContext),
  ("global_", .globalContext), ("create_interpreter", .createInterpreter),
  ("create_jit", .createCompiled), ("append_block", .appendBlock)]

/-- The question of a word. -/
def Query.ofWord? (word : String) : Option Query := words.lookup word

/-- The words for questions to a thing that have to say more than that. -/
def Thing.unfinished : Thing → List String
  | .context _ => ["create_module", "identified_type", "__exit__"]
  | .module _ => ["create", "create_in_context", "add_function", "lookup_function",
      "get_or_declare", "add_global", "set_initializer", "render_to_file", "__exit__"]
  | .engine _ => ["create_interpreter", "create_jit", "run", "__exit__"]
  | .function .. | .outside .. => ["declare_in", "from_handle", "parameter"]
  | .value _ => ["type", "of_int", "of_float", "of_pointer"]
  | .global .. => ["type", "value_type"]
  | .parameter .. => ["type"]
  | .named .. => ["set_body"]
  | _ => []

/-- Whether a number leads nowhere any more. -/
def disposed (id : Nat) : Doing Thing := return .truth (!(← get).session.isLive id)

/-- A number that there may be. -/
def ofNumber? : Option Nat → Thing
  | some n => .count n
  | none => .nothing

/-- What is done for its effect gives nothing. -/
def doing (a : Act Unit) : Doing Thing := do
  act a
  pure .nothing

/-- What a context answers. -/
def askContext (id : Nat) (q : Query) : Doing Thing := do
  let c ← act (Session.contextRecord id)
  match q with
  | .dispose => doing (Session.disposeContext id)
  | .createContext => return .context (← act Session.createContext)
  | .globalContext => return .context (← act Session.globalContextId)
  | .number => pure (.count id)
  | .isGlobal => pure (.truth c.isGlobal)
  | .isDisposed => disposed id
  | .liveModules => pure (.count c.modules.length)
  | .insides => doing (Session.require .context id)
  | _ => unfit

/-- What a module answers. -/
def askModule (id : Nat) (q : Query) : Doing Thing := do
  let r ← act (Session.moduleRecord id)
  match q with
  | .number => pure (.count id)
  | .name => pure (.text r.name)
  | .context => pure (.context r.context)
  | .isDisposed => disposed id
  | .insides => doing (Session.require .module id)
  | .functions => return .list (← (← act (Session.functions id)).mapM ofHandle)
  | .verify => doing (Session.verify id)
  | .dump => doing (do discard (Session.render id))
  | .dispose => doing (Session.disposeModule id)
  | .createInterpreter => return .engine (← act (Session.createInterpreter id))
  | .createCompiled => return .engine (← act (Session.createCompiled id .o2))
  | .isValid => return .truth (← act (Session.isValid id))
  | .text => return .text (← act (Session.render id))
  | _ => unfit

/-- What an engine answers. -/
def askEngine (id : Nat) (q : Query) : Doing Thing := do
  let e ← act (Session.engineRecord id)
  match q with
  | .dispose => doing (Session.disposeEngine id)
  | .mode => pure (.text (Session.modeWord e.backend))
  | .module => pure (.module e.module)
  | .isDisposed => disposed id
  | _ => unfit

/-- What a function answers. -/
def askFunction (h : Handle) (q : Query) : Doing Thing := do
  match q with
  | .isBare => pure (.truth h.isBare)
  | .moduleNumber => pure (ofNumber? h.moduleId?)
  | .index => pure (ofNumber? h.index?)
  | .module => do
    match ← act (Session.moduleOf h) with
    | some m => pure (.module m)
    | none => pure .nothing
  | .function | .name => return .text (← act (Session.functionName h))
  | .appendBlock => return .block (← act (Session.appendBlock h ""))
  | .blocks => return .list ((← act (Session.blockNames h)).map .block)
  | .parameterCount => return .count (← act (Session.functionOf h)).params.length
  | .signature => return .type (← act (Session.signature h))
  | .returnType => return .type (← act (Session.signedFunction h)).result
  | .parameterTypes => return .list ((← act (Session.signedFunction h)).params.map .type)
  | .isVariadic => return .truth (← act (Session.signedFunction h)).variadic
  | .isDeclaration => return .truth (← act (Session.functionOf h)).isDeclaration
  | _ => unfit

/-- What a result answers. -/
def askResult (r : RunResult) (q : Query) : Doing Thing := do
  match q with
  | .value => pure (r.elim .nothing .value)
  | .isVoid => pure (.truth r.isNone)
  | .toInt => return .count (← lift (r.toInt false))
  | .toFp => return .real (← lift r.toFp)
  | _ => unfit

/-- A value by itself. -/
def ofValue : Value → Thing
  | .null => .nothing
  | .int n => .count n
  | .truth b => .truth b
  | .real x => .real x
  | .text s => .text s
  | v => .datum v

/-- What a value answers. -/
def askValue (g : GenericValue) (q : Query) : Doing Thing := do
  match q with
  | .payload | .pointer => pure (ofValue g.payload)
  | .toInt => return .count (← lift (g.toInt false))
  | .toFp => return .real (← lift g.toFp)
  | _ => unfit

/-- What a named structure answers. -/
def askNamed (context : Nat) (name : String) (q : Query) : Doing Thing := do
  let e ← act (Session.structureOf context name)
  match q with
  | .name => pure (.text e.name)
  | .isOpaque => pure (.truth e.fields.isNone)
  | .isPacked => pure (.truth false)
  | .fields => pure (e.fields.elim .nothing fun ts => .list (ts.map .type))
  | .declaration => pure (.text (TypeTable.declaration e))
  | _ => unfit

/-- What is known by its name answers. -/
def askName (name : String) (q : Query) : Doing Thing :=
  if q = .name then pure (.text name) else unfit

mutual

/-- A thing in words. -/
def describe (t : Thing) : Doing String := do
  let storage := (← get).session.storage
  match t with
  | .context id => act (Session.describeContext id)
  | .module id => act (Session.describeModule id)
  | .engine id => act (Session.describeEngine id)
  | .function h _ | .outside h _ => act (Session.describeHandle h)
  | .result r => pure (RunResult.display storage r)
  | .value g => pure (g.display storage)
  | .global _ name t => pure ("<ir.GlobalVariable " ++ display name ++ s!" of type '{t.ref.text}'>")
  | .block name => pure ("<ir.Block " ++ display name ++ " of type 'label'>")
  | .parameter name t => pure ("<ir.Argument " ++ display name ++ s!" of type {t.text}>")
  | .truth b => pure (Datum.truth b).display
  | .count n => pure (Datum.int n).display
  | .real x => pure (Datum.real x).display
  | .text s => pure (display s)
  | .datum v => pure (v.display storage (storage.cells.size + 1))
  | .list ts => return "[" ++ ", ".intercalate (← describeAll ts) ++ "]"
  | _ => unfit

/-- Things in words. -/
def describeAll : List Thing → Doing (List String)
  | [] => pure []
  | t :: ts => do
    let s ← describe t
    let ss ← describeAll ts
    pure (s :: ss)

end

/-- What a thing answers. -/
def ask (t : Thing) (q : Query) : Doing Thing :=
  match q, t with
  | .description, t => return .text (← describe t)
  | .self, .context _ | .self, .module _ | .self, .engine _ => pure t
  | q, .context id => askContext id q
  | q, .module id => askModule id q
  | q, .engine id => askEngine id q
  | q, .function h _ | q, .outside h _ => askFunction h q
  | q, .result r => askResult r q
  | q, .value g => askValue g q
  | q, .global _ name _ | q, .parameter name _ | q, .block name => askName name q
  | q, .named c e => askNamed c e.name q
  | _, _ => unfit

/-- What a thing answers to a word. -/
def askByWord (t : Thing) (word : String) : Doing Thing :=
  if t.unfinished.contains word then throw (.failed .typeMismatch)
  else
    match Query.ofWord? word with
    | some q => ask t q
    | none => unfit

end Ssa.Script
