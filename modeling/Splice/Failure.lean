import Splice.Codec.Basic
import Splice.Json
import Splice.Reference

set_option autoImplicit false

namespace Splice

inductive PathFault where
  | missing | taken | notDirectory | isDirectory | tooLong | tooManyLinks
  deriving DecidableEq, Repr

/-- The number and the words under which an operating system reports the fault. -/
def PathFault.text : PathFault → Text
  | .missing => "[Errno 2] No such file or directory".toList
  | .taken => "[Errno 17] File exists".toList
  | .notDirectory => "[Errno 20] Not a directory".toList
  | .isDirectory => "[Errno 21] Is a directory".toList
  | .tooLong => "[Errno 36] File name too long".toList
  | .tooManyLinks => "[Errno 40] Too many levels of symbolic links".toList

inductive Nesting where
  | brackets (kind : Json.Bracket)
  | links
  | copies
  deriving DecidableEq, Repr

inductive Failure where
  | notFound (reference : Reference)
  | malformed (line : Nat) (detail : Text) (identity : Option Text)
  | emptyGraph
  | noRecord (identity : Identity)
  | emptyMarker
  | badSuffix (shown : Text)
  | noName (path : Text)
  | unsupported (shown : Text)
  | mistyped
  | notTable
  | badToml
  | unknownEncoding (name : Text)
  | undecodable (fault : Codec.Fault)
  | unencodable
  | access (fault : PathFault) (path : Text)
  | unlinkable (fault : PathFault) (target path : Text)
  | zeroInPath
  | zeroInName
  | linkLoop (path : Text)
  /-- An integer has too many digits to be read or shown, so many if they were counted. -/
  | longInteger (digits : Option Nat)
  | tooDeep (nesting : Nesting)
  deriving DecidableEq, Repr

def Nesting.text : Nesting → Text
  | .brackets .array => " while decoding a JSON array from a unicode string".toList
  | .brackets .object => " while decoding a JSON object from a unicode string".toList
  | .copies => " while calling a Python object".toList
  | .links => []

def Failure.message : Failure → Text
  | .notFound r => "file not found ".toList ++ r.text
  | .malformed line detail identity =>
    let text := "line ".toList ++ Text.ofNat line ++ ": ".toList ++ detail
    match identity with
    | some (c :: i) => c :: i ++ ": ".toList ++ text
    | _ => text
  | .emptyGraph => "empty dependency graph".toList
  | .noRecord i => Text.quoted i
  | .emptyMarker => "comment marker must not be empty".toList
  | .badSuffix shown => "Invalid suffix ".toList ++ shown
  | .noName p => "PosixPath(".toList ++ Text.quoted p ++ ") has an empty name".toList
  | .unsupported shown => "unsupported file reference: ".toList ++ shown
  | .mistyped => "a configured value has the wrong type".toList
  | .notTable => "a configured section is not a table".toList
  | .badToml => "the configuration file is not valid TOML".toList
  | .unknownEncoding name => "unknown encoding: ".toList ++ name
  | .undecodable f => f.message
  | .unencodable => "a character is outside the configured encoding".toList
  | .access fault p => fault.text ++ ": ".toList ++ Text.quoted p
  | .unlinkable fault target p =>
    fault.text ++ ": ".toList ++ Text.quoted target ++ " -> ".toList ++ Text.quoted p
  | .zeroInPath => "embedded null byte".toList
  | .zeroInName => "embedded null character".toList
  | .linkLoop p => "Symlink loop from ".toList ++ Text.quoted p
  | .longInteger digits =>
    let count := match digits with
      | some n => ": value has ".toList ++ Text.ofNat n ++ " digits".toList
      | none => []
    "Exceeds the limit (".toList ++ Text.ofNat Value.digitLimit ++
      " digits) for integer string conversion".toList ++ count ++
      "; use sys.set_int_max_str_digits() to increase the limit".toList
  | .tooDeep nesting => "maximum recursion depth exceeded".toList ++ nesting.text

theorem bind_eq_ok {α β : Type} {x : Except Failure α} {f : α → Except Failure β} {b : β}
    (h : x >>= f = .ok b) : ∃ a, x = .ok a ∧ f a = .ok b := by
  cases x with
  | error e => cases h
  | ok a => exact ⟨a, rfl, h⟩

end Splice
