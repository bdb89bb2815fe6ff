import TalkMachine.Interpreter
import TalkMachine.Machine.Bootstrap

/-!
# The demonstration

A class with two methods, one that recurs and one that loops, and an instance of it to send messages
to.
-/

namespace TalkMachine

/-- What the demonstration made. -/
structure Demo where
  receiver : Value
  /-- The methods, by selector, in the order they were made. -/
  methods : List (String × Value)

namespace Demo

open Code

/-- Pushes an argument or temporary. -/
def pushTemp (index : Nat) : CodeM Unit :=
  emit (.pushVariable .temporary index)

/-- Pops into an argument or temporary. -/
def popIntoTemp (index : Nat) : CodeM Unit :=
  emit (.store .temporary index true)

/-- Answers 1 for arguments up to 1, and else the product of the argument and what `selector`
answers for one less. -/
def factorialCode (selector : Value) : CodeM Unit := do
  let recur ← newLabel
  pushTemp 0
  Code.pushInteger 1
  emit (.sendSpecial SpecialSelector.lessEqual)
  jump .ifFalse recur
  Code.pushInteger 1
  emit (.return .top)
  bind recur
  pushTemp 0
  emit (.pushConstant .receiver)
  pushTemp 0
  Code.pushInteger 1
  emit (.sendSpecial SpecialSelector.subtract)
  Code.send selector 1
  emit (.sendSpecial SpecialSelector.multiply)
  emit (.return .top)

/-- Adds up the numbers from 1 to the argument. The first temporary is the sum, the second the
number that is added next. -/
def sumCode : CodeM Unit := do
  let head ← newLabel
  let done ← newLabel
  Code.pushInteger 0
  popIntoTemp 1
  Code.pushInteger 1
  popIntoTemp 2
  bind head
  pushTemp 2
  pushTemp 0
  emit (.sendSpecial SpecialSelector.lessEqual)
  jump .ifFalse done
  pushTemp 1
  pushTemp 2
  emit (.sendSpecial SpecialSelector.add)
  popIntoTemp 1
  pushTemp 2
  Code.pushInteger 1
  emit (.sendSpecial SpecialSelector.add)
  popIntoTemp 2
  jump .always head
  bind done
  pushTemp 1
  emit (.return .top)

/-- Selector of the method that recurs. -/
def factorialSelector : String := "factorial:"

/-- Selector of the method that loops. -/
def sumSelector : String := "sumTo:"

/-- A selector that no method has. -/
def unknownSelector : String := "frobnicate"

/-- Generates a method and puts it under a selector of a class. -/
def defineMethod (cls selector : Value) (construction : CodeM Unit)
    (argumentCount tempCount : Nat) : MachineM Value := do
  let method ← Machine.build construction argumentCount tempCount
  Machine.addMethod cls selector method
  return method

/-- Defines the class of the demonstration with its methods, and makes an instance. -/
def define : MachineM Demo := do
  let object ← Machine.ask fun m => m.kernelClass ClassIndex.object
  let cls ← Machine.defineClass "Demo" object ⟨.fixedSize, 0⟩
  let selector ← Machine.intern factorialSelector
  let factorial ← defineMethod cls selector (factorialCode selector) 1 0
  let selector ← Machine.intern sumSelector
  let sum ← defineMethod cls selector sumCode 1 2
  let receiver ← Machine.instantiate cls 0
  return ⟨receiver, [(factorialSelector, factorial), (sumSelector, sum)]⟩

end Demo

end TalkMachine
