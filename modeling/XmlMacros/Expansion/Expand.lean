import XmlMacros.Expansion.Handlers

/-!
# Expanding nodes

`expandNode` decides what a node is and hands it to the function for its directive. A directive that
fails is reported and leaves nothing behind. How deeply nodes, calls and files may be nested is
bounded by the first argument; beyond it the run ends with an overflow.
-/

namespace XmlMacros.Expansion

open XmlMacros.Markup

/-- What an element means in a state. -/
def classify (env : Environment) (s : State) (e : Element) : Directive :=
  Directive.classify env.requirePrefix s.macros.contains e

/-- What an element means that calls a macro in this way. -/
def Naming.directive : Naming → Directive
  | .byTag => .invoke
  | .byAttr => .call

/-- Does what an element says. `depth` is how deeply its children may be nested. -/
def perform (env : Environment) (depth : Nat) (expand : Expand) (e : Element) :
    Directive → M (List Node)
  | .property => defineProperty env depth e
  | .defineMacro => defineMacro depth e
  | .insertBlock => insertBlock expand e
  | .whenTrue => expandIf env expand true e
  | .whenFalse => expandIf env expand false e
  | .includeFile => includeFile env expand e
  | .arg => defineArg env e
  | .call => callMacro env expand .byAttr e
  | .newElement | .newAttribute => fail (.unsupportedTag e.tag)
  | .invoke => callMacro env expand .byTag e
  | .ordinary => do return [(← expandElement env expand e).node]

/-- Reports a fault and goes on without a result. Every other early end stays one. -/
def reportFault (x : M (List Node)) : M (List Node) :=
  tryCatch x fun
    | .fault f => do
      warn f.message
      return []
    | abort => throw abort

/-- Expands a node: the nodes that take its place. -/
def expandNode (env : Environment) : Nat → Expand
  | 0, _ => throw .overflow
  | depth + 1, n =>
    match n with
    | .element tag attrs children => do
      let e : Element := ⟨tag, attrs, children⟩
      let directive := classify env (← get) e
      reportFault (perform env depth (expandNode env depth) e directive)
    | leaf => do return [← expandLeaf env leaf]

/-- How deeply nodes, calls and files are nested in a run at most. -/
def depthLimit [Limits] : Nat :=
  Limits.expansion

end XmlMacros.Expansion
