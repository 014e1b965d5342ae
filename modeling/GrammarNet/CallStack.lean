/-!
# Invocation chains

Chains of rule invocations. A link is the number of the state that invoked a rule; the innermost link comes first.
A chain that ends in a negative link has a root: nothing called the outermost rule. A chain without one breaks off, and
nothing is known about the callers beyond it.
-/

namespace GrammarNet

/-- The links of an invocation chain, innermost first. The empty chain knows nothing about its callers. -/
abbrev CallStack := List Int

namespace CallStack

/-- The chain about which nothing is known. -/
def unknown : CallStack := []

/-- The chain of a rule that nothing called. -/
def root : CallStack := [-1]

/-- The chain after a further invocation. -/
def push (stack : CallStack) (number : Int) : CallStack := number :: stack

/-- Whether the innermost link is a root link. -/
def atRoot : CallStack → Bool
  | [] => false
  | link :: _ => decide (link < 0)

/-- The invocations of a chain up to its first root link, innermost first. -/
def links (stack : CallStack) : List Int := stack.takeWhile fun link => decide (0 ≤ link)

/-- The number of invocations up to the first root link. -/
def depth (stack : CallStack) : Nat := stack.links.length

/-- The chain with the given invocations that ends in a root. -/
def rooted (links : List Int) : CallStack := links ++ root

/-- The text of a chain. -/
def describe (stack : CallStack) : String :=
  if stack.atRoot then "InvocationContext.EMPTY"
  else "InvocationContext([" ++ ", ".intercalate (stack.links.map fun link => toString link) ++ "])"

end CallStack

/-! ## Callers as a parser presents them -/

/-- What a parser says about its callers: an invocation chain, or the frames on its own stack, of which there is at
least one. -/
inductive Callers where
  | chain (stack : CallStack)
  | frames (innermost : Int) (outer : List Int)
  deriving DecidableEq

namespace Callers

/-- The chain of the frames up to the first root frame, ended by a root. -/
def snapshot (frames : List Int) : CallStack := .rooted (CallStack.links frames)

/-- The invocation chain that callers amount to. -/
def stack : Callers → CallStack
  | chain stack => stack
  | frames innermost outer => snapshot (innermost :: outer)

/-- The invocations of callers up to the first root link, ended by a root whether there was one or not. -/
def rooted (callers : Callers) : CallStack := .rooted callers.stack.links

/-- Whether two callers are interchangeable. Chains are compared by their links; the frames of a parser are equal to
nothing that is presented beside them. -/
def same : Callers → Callers → Bool
  | chain first, chain second => first == second
  | _, _ => false

end Callers

end GrammarNet
