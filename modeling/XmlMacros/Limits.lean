/-!
# Limits

Texts and elements can be nested without end, and a run gives up where they are nested too deeply
for what it runs on. How deep that is differs from one place to the next, so it is left open here.
-/

namespace XmlMacros

/-- How deeply a run goes before it gives up. -/
class Limits where
  /-- How many expressions may be under way at a time, counted with the parentheses and signs that
  the innermost of them is read in. -/
  evaluation : Nat
  /-- How many elements, calls of macros and included files may be under way at a time. -/
  expansion : Nat

/-- Limits that leave room for what is usually written. -/
abbrev Limits.usual : Limits := ⟨500, 300⟩

end XmlMacros
