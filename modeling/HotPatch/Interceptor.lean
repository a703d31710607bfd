import HotPatch.Bytecode.Instruction
import HotPatch.Text.Utf16

/-!
# The interceptor library

Intercepted code calls into a small library that ships with the application.
Its classes are never part of the program at hand: code names them, and this
module is the list of the names, with the types that go with them.
-/

namespace HotPatch.Interceptor

/-- Where the library itself lives; nothing in there is intercepted. -/
def libraryPackage : String := "com/baidu/titan/sdk/"

def interceptable : ClassName := .of "com/baidu/titan/sdk/runtime/Interceptable"
def interceptResult : ClassName := .of "com/baidu/titan/sdk/runtime/InterceptResult"
def initContext : ClassName := .of "com/baidu/titan/sdk/runtime/InitContext"
def buddyInitContext : ClassName := .of "com/baidu/titan/sdk/runtime/BuddyInitContext"
def buddyInitHolder : ClassName := .of "com/baidu/titan/sdk/runtime/BuddyInitHolder"
def fieldHolder : ClassName := .of "com/baidu/titan/sdk/runtime/FieldHolder"
def contextFactory : ClassName := .of "com/baidu/titan/sdk/runtime/TitanRuntime"
def clinitInterceptable : ClassName := .of "com/baidu/titan/sdk/runtime/ClassClinitInterceptable"
def clinitStorage : ClassName := .of "com/baidu/titan/sdk/runtime/ClassClinitInterceptorStorage"

/-- Marks a class or method that is to be left alone. -/
def disableTag : ClassName := .of "com/baidu/titan/sdk/runtime/annotation/DisableIntercept"

/-- Marks a genesis class. -/
def genesisTypeTag : ClassName := .of "com/baidu/titan/sdk/runtime/annotation/GenesisType"

/-- Carries the number of a constructor of a genesis class. -/
def genesisInitTag : ClassName := .of "com/baidu/titan/sdk/runtime/annotation/GenesisInitMethod"

/-- The element of `genesisInitTag` that holds the number. -/
def methodIdElement : MemberName := ⟨"methodId"⟩

/-- Bit of `initFlag`: the patch takes the constructor over. -/
def interceptedBit : Int16 := 1

/-- Bit of `initFlag`: the superclass is initialized through its buddy constructor. -/
def buddyBit : Int16 := 2

/-- Bit of `resultFlags`: the static initializer itself has changed. -/
def clinitChangedBit : Int16 := 1

def objectArray : ValueType := .array .rootObject

/-! ## Slots of the program's own classes -/

/-- The slot through which a patch installs the interceptor of a class. -/
def slot (owner : ClassName) : FieldRef := ⟨owner, ⟨"$ic"⟩, .object interceptable⟩

/-- The slot with the fields that a patch adds to a class. -/
def holderSlot (owner : ClassName) : FieldRef := ⟨owner, ⟨"$fh"⟩, .object fieldHolder⟩

/-- Name of the field in which a genesis class keeps a patch's counterpart. -/
def buddyField : MemberName := ⟨"$buddyObj"⟩

/-! ## Ordinary methods -/

/-- `invokeCommon(id, receiver, arguments)`. -/
def invokeCommon : MethodRef :=
  ⟨interceptable, ⟨"invokeCommon"⟩,
    ⟨[.base .int, .rootObject, objectArray], some (.object interceptResult)⟩⟩

/-- The parameter that one letter of a shape stands for; `V` stands for none. -/
def shapeParameter? (code : Char) : Option ValueType :=
  match Primitive.ofCode? code with
  | some p => some (.base p)
  | none => if code = 'V' then none else some .rootObject

/-- The overload for one parameter shape: id, receiver, then the arguments as they are. -/
def invokeShape (shape : String) : MethodRef :=
  ⟨interceptable, ⟨"invoke" ++ shape⟩,
    ⟨.base .int :: .rootObject :: shape.toList.filterMap shapeParameter?,
      some (.object interceptResult)⟩⟩

/-- Name of the member that gives a value of a primitive type. -/
def valueName : Primitive → MemberName
  | .boolean => ⟨"booleanValue"⟩
  | .byte => ⟨"byteValue"⟩
  | .char => ⟨"charValue"⟩
  | .short => ⟨"shortValue"⟩
  | .int => ⟨"intValue"⟩
  | .long => ⟨"longValue"⟩
  | .float => ⟨"floatValue"⟩
  | .double => ⟨"doubleValue"⟩

/-- The field of a result that carries a value of the given type. -/
def resultValue : ValueType → FieldRef
  | .base p => ⟨interceptResult, valueName p, .base p⟩
  | _ => ⟨interceptResult, ⟨"objValue"⟩, .rootObject⟩

/-! ## Constructors -/

def initProtocol (name : MemberName) : MethodRef :=
  ⟨interceptable, name, .void [.base .int, .object initContext]⟩

/-- `invokeUnInit(id, context)`, before the receiver is initialized. -/
def invokeUnInit : MethodRef := initProtocol ⟨"invokeUnInit"⟩

/-- `invokeInitBody(id, context)`, once it is. -/
def invokeInitBody : MethodRef := initProtocol ⟨"invokeInitBody"⟩

def newInitContext : MethodRef :=
  ⟨contextFactory, ⟨"newInitContext"⟩, ⟨[], some (.object initContext)⟩⟩

/-- The arguments the constructor was called with. -/
def initArgs : FieldRef := ⟨initContext, ⟨"initArgs"⟩, objectArray⟩

/-- The arguments for the delegated constructor call. -/
def callArgs : FieldRef := ⟨initContext, ⟨"callArgs"⟩, objectArray⟩

def thisArg : FieldRef := ⟨initContext, ⟨"thisArg"⟩, .rootObject⟩

def initFlag : FieldRef := ⟨initContext, ⟨"flag"⟩, .base .int⟩

/-! ## Static initializers -/

/-- The one slot of the process for the interceptor of static initializers. -/
def clinitSlot : FieldRef := ⟨clinitStorage, ⟨"$ic"⟩, .object clinitInterceptable⟩

def clinitProtocol (name : MemberName) : MethodRef :=
  ⟨clinitInterceptable, name, ⟨[.base .int, .object .string], some (.object interceptResult)⟩⟩

/-- Announces a class by hash and descriptor. -/
def invokeClinit : MethodRef := clinitProtocol ⟨"invokeClinit"⟩

/-- Runs in place of a changed static initializer. -/
def invokePostClinit : MethodRef := clinitProtocol ⟨"invokePostClinit"⟩

def resultInterceptor : FieldRef :=
  ⟨interceptResult, ⟨"interceptor"⟩, .object interceptable⟩

def resultFlags : FieldRef := ⟨interceptResult, ⟨"flags"⟩, .base .int⟩

/-! ## Buddy constructors -/

def buddyInitMethodId : FieldRef := ⟨buddyInitContext, ⟨"initMethodId"⟩, .base .int⟩

def buddyCurrent : MethodRef :=
  ⟨buddyInitContext, ⟨"current"⟩, ⟨[], some (.object buddyInitHolder)⟩⟩

def buddyParameters : FieldRef := ⟨buddyInitHolder, ⟨"paras"⟩, objectArray⟩

/-- Signature of the constructors that a patch calls instead of the ordinary ones. -/
def buddySignature : Signature := .void [.object buddyInitContext]

def buddyConstructor (owner : ClassName) : MethodRef := ⟨owner, .init, buddySignature⟩

/-! ## Boxes -/

/-- The call that boxes a value of a primitive type. -/
def boxMethod (p : Primitive) : MethodRef :=
  ⟨p.boxClass, ⟨"valueOf"⟩, ⟨[.base p], some (.object p.boxClass)⟩⟩

/-- The call that takes a value out of its box. -/
def unboxMethod (p : Primitive) : MethodRef :=
  ⟨p.boxClass, valueName p, ⟨[], some (.base p)⟩⟩

end HotPatch.Interceptor
