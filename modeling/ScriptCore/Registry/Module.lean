import ScriptCore.Container

/-!
# Modules

A module is registered by running a body that registers functions and classes.  While the
body runs the module is the current one, and what is registered is attributed to it; the
module that was current before is current again afterwards, whether the body succeeds or
not.  Only a module whose body succeeds is listed.
-/

namespace ScriptCore
namespace Container

variable {m : Type → Type} [Monad m] [MonadStateOf Container m]

/-- Run a body as the registration of a module. -/
def registerModule (info : ModuleInfo) (body : ExceptT Error m Unit) : ExceptT Error m Unit :=
  ExceptT.mk do
    let previous := (← getThe Container).currentModule
    modifyThe Container fun k => { k with currentModule := some info.name }
    let result ← body.run
    modifyThe Container fun k => { k with currentModule := previous }
    match result with
    | .ok _ =>
        modifyThe Container fun k =>
          { k with modules := k.modules.insert info.name ⟨info, info.description⟩ }
        return .ok ()
    | .error e => return .error (e.withNote s!"while registering module {info.name}")

/-- Registration, for a body that changes the container only. -/
theorem registerModule_apply (info : ModuleInfo) (body : Action Container Unit)
    (k : Container) :
    registerModule info body k =
      match body { k with currentModule := some info.name } with
      | (.ok _, l) =>
          (.ok (), { l with
            currentModule := k.currentModule
            modules := l.modules.insert info.name ⟨info, info.description⟩ })
      | (.error e, l) =>
          (.error (e.withNote s!"while registering module {info.name}"),
            { l with currentModule := k.currentModule }) := by
  rcases h : body { k with currentModule := some info.name } with ⟨_ | _, l⟩ <;>
    simp only [registerModule, ExceptT.mk, ExceptT.run, getThe, modifyThe, bind, StateT.bind,
      MonadStateOf.get, StateT.get, MonadStateOf.modifyGet, StateT.modifyGet, pure, h] <;>
    rfl

/-- Take a module off the list.  What it registered stays. -/
def removeModule (name : String) : Action Container Unit := fun k =>
  if k.modules.contains name then
    let currentModule := if k.currentModule = some name then none else k.currentModule
    (.ok (), { k with modules := k.modules.erase name, currentModule })
  else (.error (Error.of (.unknownModule name)), k)

/-- Change the description that a module is listed with. -/
def describeModule (name description : String) : Action Container Unit := fun k =>
  match k.modules.find? name with
  | some entry =>
      (.ok (), { k with modules := k.modules.insert name { entry with description } })
  | none => (.error (Error.of (.unknownModule name)), k)

def hasModule (k : Container) (name : String) : Bool := k.modules.contains name

def moduleNames (k : Container) : List String := k.modules.keys

/-- The description that a module is listed with. -/
def moduleDescription? (k : Container) (name : String) : Option String :=
  (k.modules.find? name).map ModuleEntry.description

/-- What a module says about itself. -/
def moduleInfo? (k : Container) (name : String) : Option ModuleInfo :=
  (k.modules.find? name).map ModuleEntry.info

end Container
end ScriptCore
