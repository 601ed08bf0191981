/-! The instruction names of the script machine. A name that is not listed is
carried along unchanged, so a listing can show it. -/
namespace ScriptListing

structure Opcode where
  name : String
  deriving DecidableEq, Repr, Inhabited

namespace Opcode

def localVariable : Opcode := ⟨"EX_LocalVariable"⟩
def instanceVariable : Opcode := ⟨"EX_InstanceVariable"⟩
def defaultVariable : Opcode := ⟨"EX_DefaultVariable"⟩
def localOutVariable : Opcode := ⟨"EX_LocalOutVariable"⟩
def self : Opcode := ⟨"EX_Self"⟩
def nothing : Opcode := ⟨"EX_Nothing"⟩
def endOfScript : Opcode := ⟨"EX_EndOfScript"⟩
def «return» : Opcode := ⟨"EX_Return"⟩
def jump : Opcode := ⟨"EX_Jump"⟩
def jumpIfNot : Opcode := ⟨"EX_JumpIfNot"⟩
def computedJump : Opcode := ⟨"EX_ComputedJump"⟩
def pushExecutionFlow : Opcode := ⟨"EX_PushExecutionFlow"⟩
def popExecutionFlow : Opcode := ⟨"EX_PopExecutionFlow"⟩
def popExecutionFlowIfNot : Opcode := ⟨"EX_PopExecutionFlowIfNot"⟩
def «let» : Opcode := ⟨"EX_Let"⟩
def letBool : Opcode := ⟨"EX_LetBool"⟩
def letObj : Opcode := ⟨"EX_LetObj"⟩
def letWeakObjPtr : Opcode := ⟨"EX_LetWeakObjPtr"⟩
def letDelegate : Opcode := ⟨"EX_LetDelegate"⟩
def letMulticastDelegate : Opcode := ⟨"EX_LetMulticastDelegate"⟩
def letValueOnPersistentFrame : Opcode := ⟨"EX_LetValueOnPersistentFrame"⟩
def finalFunction : Opcode := ⟨"EX_FinalFunction"⟩
def localFinalFunction : Opcode := ⟨"EX_LocalFinalFunction"⟩
def callMath : Opcode := ⟨"EX_CallMath"⟩
def virtualFunction : Opcode := ⟨"EX_VirtualFunction"⟩
def localVirtualFunction : Opcode := ⟨"EX_LocalVirtualFunction"⟩
def context : Opcode := ⟨"EX_Context"⟩
def contextFailSilent : Opcode := ⟨"EX_Context_FailSilent"⟩
def classContext : Opcode := ⟨"EX_ClassContext"⟩
def structMemberContext : Opcode := ⟨"EX_StructMemberContext"⟩
def interfaceContext : Opcode := ⟨"EX_InterfaceContext"⟩
def cast : Opcode := ⟨"EX_Cast"⟩
def metaCast : Opcode := ⟨"EX_MetaCast"⟩
def dynamicCast : Opcode := ⟨"EX_DynamicCast"⟩
def objToInterfaceCast : Opcode := ⟨"EX_ObjToInterfaceCast"⟩
def crossInterfaceCast : Opcode := ⟨"EX_CrossInterfaceCast"⟩
def interfaceToObjCast : Opcode := ⟨"EX_InterfaceToObjCast"⟩
def «true» : Opcode := ⟨"EX_True"⟩
def «false» : Opcode := ⟨"EX_False"⟩
def intConst : Opcode := ⟨"EX_IntConst"⟩
def int64Const : Opcode := ⟨"EX_Int64Const"⟩
def byteConst : Opcode := ⟨"EX_ByteConst"⟩
def floatConst : Opcode := ⟨"EX_FloatConst"⟩
def doubleConst : Opcode := ⟨"EX_DoubleConst"⟩
def nameConst : Opcode := ⟨"EX_NameConst"⟩
def stringConst : Opcode := ⟨"EX_StringConst"⟩
def unicodeStringConst : Opcode := ⟨"EX_UnicodeStringConst"⟩
def textConst : Opcode := ⟨"EX_TextConst"⟩
def vectorConst : Opcode := ⟨"EX_VectorConst"⟩
def rotationConst : Opcode := ⟨"EX_RotationConst"⟩
def objectConst : Opcode := ⟨"EX_ObjectConst"⟩
def structConst : Opcode := ⟨"EX_StructConst"⟩
def noObject : Opcode := ⟨"EX_NoObject"⟩

/-- The instructions a dump may name and a listing has a rule for. -/
def known : List Opcode := [
  localVariable, instanceVariable, defaultVariable, localOutVariable, self, nothing,
  endOfScript, «return», jump, jumpIfNot, computedJump, pushExecutionFlow, popExecutionFlow,
  popExecutionFlowIfNot, «let», letBool, letObj, letWeakObjPtr, letDelegate,
  letMulticastDelegate, letValueOnPersistentFrame, finalFunction, localFinalFunction, callMath,
  virtualFunction, localVirtualFunction, context, contextFailSilent, classContext,
  structMemberContext, interfaceContext, cast, metaCast, dynamicCast, objToInterfaceCast,
  crossInterfaceCast, interfaceToObjCast, «true», «false», intConst, int64Const, byteConst,
  floatConst, doubleConst, nameConst, stringConst, unicodeStringConst, textConst, vectorConst,
  rotationConst, objectConst, structConst, noObject]

def isKnown (code : Opcode) : Bool := known.contains code

end Opcode
end ScriptListing
