import TalkMachine.Object.Format

/-!
# Indices of the kernel classes

Every class has an index in the class table, which its instances carry in their headers. Immediate
values have theirs as their tag. The kernel classes have fixed indices; from `firstDynamic` on they
are handed out as classes are defined.
-/

namespace TalkMachine.ClassIndex

/-- Index of the class SmallInteger. -/
def smallInteger : Nat := 1
/-- Index of the class Character. -/
def character : Nat := 2
/-- Index of the class SmallFloat. -/
def smallFloat : Nat := 4
/-- Index of the class UndefinedObject. -/
def undefinedObject : Nat := 8
/-- Index of the class True. -/
def trueClass : Nat := 9
/-- Index of the class False. -/
def falseClass : Nat := 10
/-- Index of the class Object. -/
def object : Nat := 11
/-- Index of the class Boolean. -/
def boolean : Nat := 12
/-- Index of the class Symbol. -/
def symbol : Nat := 13
/-- Index of the class String. -/
def string : Nat := 14
/-- Index of the class Array. -/
def array : Nat := 15
/-- Index of the class ByteArray. -/
def byteArray : Nat := 16
/-- Index of the class MethodDictionary. -/
def methodDictionary : Nat := 17
/-- Index of the class CompiledMethod. -/
def compiledMethod : Nat := 18
/-- Index of the class NativeMethod. -/
def nativeMethod : Nat := 19
/-- Index of the class Association. -/
def association : Nat := 20
/-- Index of the class Behavior. -/
def behavior : Nat := 21
/-- Index of the class Class. -/
def classClass : Nat := 22
/-- Index of the class Metaclass. -/
def metaclass : Nat := 23

/-- The first index that is handed out. -/
def firstDynamic : Nat := 24

end TalkMachine.ClassIndex
