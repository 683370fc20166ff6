import Provisioning.Model.TypeText
import Provisioning.Text.Pieces

/-!
# Failures

Everything that can stop a round, each with its cause and with the frames it passed on its way out.
The wording is kept apart, in the `message` functions.
-/

namespace Provisioning

inductive PropertyFault
  /-- The declaration does not carry the annotation. -/
  | absent
  /-- The property has no value. -/
  | unset
  | notType
  deriving DecidableEq, Repr

structure PropertyProblem where
  marker : String
  property : String
  fault : PropertyFault
  deriving DecidableEq, Repr

def PropertyProblem.message (p : PropertyProblem) : String :=
  let reason := match p.fault with
    | .absent => "annotation is missing"
    | .unset => "no value"
    | .notType => "not a Class<?>"
  "@" ++ p.marker ++ "." ++ p.property ++ ": " ++ reason

def PropertyProblem.finding (p : PropertyProblem) : String :=
  match p.fault with
  | .absent => "Annotation @" ++ p.marker ++ " is missing"
  | .unset => "Property " ++ p.property ++ " of @" ++ p.marker ++ " has no value"
  | .notType => "Property " ++ p.property ++ " of @" ++ p.marker ++ " is not a Class<?>"

/-- A rule of provisioning that a declaration breaks. Markers are given as they are displayed. -/
inductive Violation
  | severalMarkers (markers : List String)
  | returnsNothing (marker : String)
  | parametersInComponent
  | injectedNotSubtype (implementation returns : TypeText)
  | notSubtype (implementation returns : TypeText)
  | notInstantiable (implementation : TypeText)
  | noConstructor (implementation : TypeText) (marker : String)
  | severalConstructors (implementation : TypeText) (marker : String)
  | stated (message : String)
  deriving DecidableEq, Repr

def Violation.message : Violation → String
  | .severalMarkers markers =>
    "Provisioning markers are mutually exclusive, found " ++
      Text.join ", " (markers.map ("@" ++ ·))
  | .returnsNothing marker => "Methods annotated with @" ++ marker ++ " must return a value"
  | .parametersInComponent =>
    "Methods annotated with @ProvidedBy can't have parameters when declared alongside the dagger " ++
      "@Component"
  | .injectedNotSubtype implementation returns =>
    "Injected type " ++ implementation.text ++ " is not a subtype of " ++ returns.text
  | .notSubtype implementation returns =>
    "Implementation type " ++ implementation.text ++ " is not a subtype of " ++ returns.text
  | .notInstantiable implementation =>
    "Can't create instances of abstract classes or interfaces for " ++ implementation.text
  | .noConstructor implementation marker =>
    "No public or package constructors for " ++ implementation.text ++ " required by @" ++ marker
  | .severalConstructors implementation marker =>
    "More than one constructor available for " ++ implementation.text ++ " @" ++ marker ++
      " can't choose one"
  | .stated message => message

inductive SystemError
  | noEntry
  | exists
  | notDirectory
  | isDirectory
  | nameTooLong
  | nulInName
  | notText
  deriving DecidableEq, Repr

def SystemError.message : SystemError → String
  | .noEntry => "No such file or directory (os error 2)"
  | .exists => "File exists (os error 17)"
  | .notDirectory => "Not a directory (os error 20)"
  | .isDirectory => "Is a directory (os error 21)"
  | .nameTooLong => "File name too long (os error 36)"
  | .nulInName => "file name contained an unexpected NUL byte"
  | .notText => "stream did not contain valid UTF-8"

inductive WriteError
  | alreadyCreated (name : String)
  | refused (message : String)
  | system (e : SystemError)
  deriving DecidableEq, Repr

namespace WriteError

def message : WriteError → String
  | .alreadyCreated name => "Attempt to recreate a file for type " ++ name
  | .refused message => message
  | .system e => e.message

def isConflict : WriteError → Bool
  | .alreadyCreated _ => true
  | .system .exists => true
  | _ => false

end WriteError

inductive Cause
  | violation (v : Violation) (element : Option String)
  | property (p : PropertyProblem) (element : Option String)
  | unknownType (name : String)
  | output (e : WriteError)
  | internal (message : String)
  deriving DecidableEq, Repr

def Cause.message : Cause → String
  | .violation v _ => v.message
  | .property p _ => p.finding
  | .unknownType name => "Unknown type " ++ name
  | .output e => "Cannot write generated source: " ++ e.message
  | .internal message => "Internal error: " ++ message

inductive Frame
  | classify (element : String)
  | plan (container : String)
  | discover
  | generate
  | writeSource (name : String)
  | host (text : String)
  deriving DecidableEq, Repr

namespace Frame

def driver : String := "stiletto::round"

def text : Frame → String
  | .classify element => "stiletto::provision::classify(" ++ element ++ ")"
  | .plan container => "stiletto::module::ModulePlan::new(" ++ container ++ ")"
  | .discover => driver ++ "::Processor::discover"
  | .generate => driver ++ "::Processor::generate"
  | .writeSource name => "stiletto::env::Filer::write_source(" ++ name ++ ")"
  | .host text => text

def isDriver (f : Frame) : Bool := driver.toList.isPrefixOf f.text.toList

end Frame

structure Failure where
  cause : Cause
  trace : List Frame
  deriving DecidableEq, Repr

namespace Failure

def of (cause : Cause) : Failure := ⟨cause, []⟩

def violation (v : Violation) (element : String) : Failure := of (.violation v (some element))

def message (f : Failure) : String := f.cause.message

/-- Whether the processed declarations are to blame. -/
def isValidation (f : Failure) : Bool :=
  match f.cause with
  | .violation _ _ => true
  | .property _ _ => true
  | _ => false

def element (f : Failure) : Option String :=
  match f.cause with
  | .violation _ element => element
  | .property _ element => element
  | _ => none

def withElement (f : Failure) (element : String) : Failure :=
  match f.cause with
  | .violation v _ => { f with cause := .violation v (some element) }
  | .property p _ => { f with cause := .property p (some element) }
  | _ => f

def within (f : Failure) (frame : Frame) : Failure := { f with trace := f.trace ++ [frame] }

/-- The message with a line for every frame inside the round driver. -/
def report (f : Failure) : String :=
  f.message ++ String.join ((f.trace.takeWhile fun frame => !frame.isDriver).map fun frame =>
    "\n\tat " ++ frame.text)

end Failure

end Provisioning
