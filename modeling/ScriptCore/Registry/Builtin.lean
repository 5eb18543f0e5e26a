import ScriptCore.Registry.Call

/-!
# Built-in modules

Two modules that come with the language: one shows scripts what is registered, the other
tells the type of a value.
-/

namespace ScriptCore

/-- A function of a built-in module. -/
structure BuiltinFunction where
  primitive : Primitive
  doc : Doc
  deriving DecidableEq, Repr

/-- A built-in module with its functions, in the order of their registration. -/
structure Builtin where
  info : ModuleInfo
  functions : List BuiltinFunction
  deriving DecidableEq, Repr

namespace Builtin

/-- A function that looks a name up. -/
def lookupFunction (name : String) (returns : Tag) (description : String)
    (primitive : Primitive) : BuiltinFunction where
  primitive := primitive
  doc := ⟨name, returns, [⟨"name", .string, "Name to look up", false, false⟩], description⟩

/-- The module that shows what is registered. -/
def moduleHelper : Builtin where
  info := ⟨"ModuleHelper", "Inspect loaded modules, functions and classes"⟩
  functions := [
    ⟨.listModules,
      ⟨"module_list", .object, [], "List every loaded module with its classes and functions"⟩⟩,
    lookupFunction "module_exists" .bool "Check whether a module is loaded" .moduleExists,
    lookupFunction "module_info" .object
      "Describe one module; empty object if it is not loaded" .moduleInfo,
    lookupFunction "function_info" .object "Describe a function or a Class::method"
      .functionInfo,
    lookupFunction "class_info" .object "Describe a class" .classInfo]

/-- The module that tells types. -/
def variableHelpers : Builtin where
  info := ⟨"VariableHelpers", "Helpers for inspecting variables"⟩
  functions := [
    ⟨.typeOf,
      { name := "typeof"
        returns := .string
        parameters := [
          ⟨"value", .undefined, "The value to inspect", false, false⟩,
          ⟨"type", .string, "The type to compare against", true, false⟩]
        description := "Get the type of a variable" }⟩]

/-- The built-in modules, in the order in which they are registered. -/
def all : List Builtin := [moduleHelper, variableHelpers]

/-- Register and document a function. -/
def installFunction (k : Container) (f : BuiltinFunction) : Container :=
  (k.registerFunction f.doc.name (.perform f.primitive) f.doc.returns).registerDoc f.doc.name
    f.doc

/-- Register a built-in module. -/
def register {m : Type → Type} [Monad m] [MonadStateOf Container m] (b : Builtin) :
    ExceptT Error m Unit :=
  Container.registerModule b.info <| ExceptT.lift <|
    modifyThe Container fun k => b.functions.foldl installFunction k

end Builtin
end ScriptCore
