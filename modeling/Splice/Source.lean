import Splice.Event

set_option autoImplicit false

namespace Splice

inductive Content where
  | text (t : Text)
  | unreadable (cause : Failure)
  deriving DecidableEq, Repr

structure Source where
  resolve : Reference → Except Failure (Option Identity)
  read : Identity → Except Failure Content
  finite : ∃ known : List Identity, ∀ {r : Reference} {i : Identity} {t : Text},
    resolve r = .ok (some i) → read i = .ok (.text t) → i ∈ known

noncomputable def Source.known (s : Source) : List Identity := Classical.choose s.finite

theorem Source.mem_known {s : Source} {r : Reference} {i : Identity} {t : Text}
    (hr : s.resolve r = .ok (some i)) (ht : s.read i = .ok (.text t)) : i ∈ s.known :=
  Classical.choose_spec s.finite hr ht

inductive Fetched where
  | absent
  | unreadable (identity : Identity) (cause : Failure)
  | file (identity : Identity) (text : Text)
  deriving DecidableEq, Repr

def Source.fetch (s : Source) (r : Reference) : Except Failure Fetched :=
  match s.resolve r with
  | .error e => .error e
  | .ok none => .ok .absent
  | .ok (some i) =>
    match s.read i with
    | .error e => .error e
    | .ok (.text t) => .ok (.file i t)
    | .ok (.unreadable e) => .ok (.unreadable i e)

theorem Source.fetch_of_text {s : Source} {r : Reference} {i : Identity} {t : Text}
    (hr : s.resolve r = .ok (some i)) (ht : s.read i = .ok (.text t)) :
    s.fetch r = .ok (.file i t) := by
  simp only [fetch, hr, ht]

theorem Source.fetch_of_unreadable {s : Source} {r : Reference} {i : Identity} {e : Failure}
    (hr : s.resolve r = .ok (some i)) (he : s.read i = .ok (.unreadable e)) :
    s.fetch r = .ok (.unreadable i e) := by
  simp only [fetch, hr, he]

def Fetched.events : Fetched → List Event
  | .unreadable i e => [.unreadable i e]
  | _ => []

end Splice
