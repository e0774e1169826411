import Splice.Failure

set_option autoImplicit false

namespace Splice

inductive Level where
  | debug | warning | error
  deriving DecidableEq, Repr

namespace Level

def rank : Level → Nat
  | debug => 0
  | warning => 1
  | error => 2

def text : Level → Text
  | debug => "DEBUG".toList
  | warning => "WARNING".toList
  | error => "ERROR".toList

end Level

inductive Event where
  | scanned (identity : Identity) (directives : Nat)
  | duplicate (identity : Identity) (line : Nat) (target : Identity)
  | built (seed : Identity) (files : Nat)
  | unreadable (identity : Identity) (cause : Failure)
  | unstripped (start : Text) (identity : Identity)
  deriving DecidableEq, Repr

namespace Event

def level : Event → Level
  | scanned .. | duplicate .. | built .. => .debug
  | unreadable .. | unstripped .. => .warning

def origin : Event → Text
  | scanned .. | duplicate .. | built .. => "preproc.graph.builder".toList
  | unreadable .. => "preproc.sources.filesystem".toList
  | unstripped .. => "preproc.depfile".toList

def text : Event → Text
  | scanned i n => "Scanned ".toList ++ i ++ ": ".toList ++ Text.ofNat n ++ " directive(s)".toList
  | duplicate i line target =>
    i ++ [':'] ++ Text.ofNat line ++ ": duplicate include of ".toList ++ target ++
      " ignored".toList
  | built i n =>
    "Built graph for ".toList ++ i ++ " with ".toList ++ Text.ofNat n ++ " file(s)".toList
  | unreadable i e => "Cannot read ".toList ++ i ++ ": ".toList ++ e.message
  | unstripped s i =>
    "Failed to strip prefix ".toList ++ Text.quoted s ++ " from ".toList ++ i

def line (e : Event) : Text :=
  e.level.text ++ ": ".toList ++ e.origin ++ ": ".toList ++ e.text

end Event
end Splice
