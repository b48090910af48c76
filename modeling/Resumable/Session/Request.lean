import Resumable.Session.Building

/-!
# Requests

The calls on a session as data, so that a whole session is a list of requests. `run` says
which call a request stands for.
-/

namespace Resumable

inductive Request where
  | writeLocation (span : Span)
  | emit (op : Operation)
  | defineLabel
  | markLabel (label : Label)
  | createInlineBreak (label : Label)
  | createInlineReturn (value : Option Node)
  | createResume
  | beginException
  | beginCatch (name : String)
  | beginFinally
  | endException
  | beginScope (holder : String)
  | endScope
  | beginBreakable (names : List String) (needsName : Bool)
  | endBreakable
  | beginLoop (continueLabel : Label) (names : List String)
  | endLoop
  | beginNativeBreakable (names : List String) (needsName : Bool)
  | endNativeBreakable
  | beginNativeLoop (names : List String)
  | endNativeLoop
  | findBreakTarget (name : Option String)
  | findContinueTarget (name : Option String)
  | createUniqueIdentifier (preferred : Option String) (registered : Bool)
  | declareLocal (preferred : Option String) (registered : Bool)
  | addVariable (name : String)
  | addParameter (parameter : Parameter Node)
  | addFunction (declaration : Node)
  | ensureIdentifier (expression : Node)
  | valueOrDefault (value default : Node)
  | stateName
  | takeDiagnostics
  | buildStatements (forceReturn : Bool)
  | buildFunction (shape : FunctionShape) (name : Option String)

/-- What a call answers. -/
inductive Reply where
  | done
  | label (label : Label)
  | name (name : String)
  | node (node : Node)
  | target (target : Session.JumpTarget)
  | diagnostics (diagnostics : List Diagnostic)
  | body (body : Body)

namespace Request

open Session

def run : Request → SessionM Reply
  | .writeLocation span => do Session.writeLocation span; return .done
  | .emit op => do Session.emit op; return .done
  | .defineLabel => return .label (← Session.defineLabel)
  | .markLabel label => do Session.markLabel label; return .done
  | .createInlineBreak label => return .node (← Session.createInlineBreak label)
  | .createInlineReturn value => return .node (← Session.createInlineReturn value)
  | .createResume => return .node (← Session.createResume)
  | .beginException => return .label (← Session.beginException)
  | .beginCatch name => do Session.beginCatch name; return .done
  | .beginFinally => do Session.beginFinally; return .done
  | .endException => do Session.endException; return .done
  | .beginScope holder => do Session.beginScope holder; return .done
  | .endScope => do Session.endScope; return .done
  | .beginBreakable names needsName => do Session.beginBreakable names needsName; return .done
  | .endBreakable => do Session.endBreakable; return .done
  | .beginLoop continueLabel names => do Session.beginLoop continueLabel names; return .done
  | .endLoop => do Session.endLoop; return .done
  | .beginNativeBreakable names needsName => do
    Session.beginNativeBreakable names needsName; return .done
  | .endNativeBreakable => do Session.endNativeBreakable; return .done
  | .beginNativeLoop names => do Session.beginNativeLoop names; return .done
  | .endNativeLoop => do Session.endNativeLoop; return .done
  | .findBreakTarget name => return .target (← Session.findBreakTarget name)
  | .findContinueTarget name => return .target (← Session.findContinueTarget name)
  | .createUniqueIdentifier preferred registered =>
    return .name (← Session.createUniqueIdentifier preferred registered)
  | .declareLocal preferred registered => return .name (← Session.declareLocal preferred registered)
  | .addVariable name => do Session.addVariable name; return .done
  | .addParameter parameter => do Session.addParameter parameter; return .done
  | .addFunction declaration => do Session.addFunction declaration; return .done
  | .ensureIdentifier expression => return .node (← Session.ensureIdentifier expression)
  | .valueOrDefault value default => return .node (← Session.valueOrDefault value default)
  | .stateName => return .name (← Session.stateName)
  | .takeDiagnostics => return .diagnostics (← Session.takeDiagnostics)
  | .buildStatements forceReturn => return .body (← Session.buildStatements forceReturn)
  | .buildFunction shape name => return .node (← Session.buildFunction shape name)

end Request

end Resumable
