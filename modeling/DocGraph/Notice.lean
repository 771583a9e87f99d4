import DocGraph.Error

set_option autoImplicit false

namespace DocGraph

inductive Notice where
  | undeclaredReaders (type : String) (fields : List String)
  | deprecatedLeafFilter
deriving DecidableEq, Repr

-- What a notice is about. A log reports one notice per subject.
inductive Subject where
  | undeclaredReaders (type : String)
  | deprecatedLeafFilter
deriving DecidableEq, Repr

namespace Notice

def subject : Notice → Subject
  | .undeclaredReaders type _ => .undeclaredReaders type
  | .deprecatedLeafFilter => .deprecatedLeafFilter

def text : Notice → String
  | .undeclaredReaders type fields =>
      let listed := ", ".intercalate fields
      s!"Type {type} has computed fields without declared dependencies ({listed}); " ++
        "filtering or projecting through them is not safe"
  | .deprecatedLeafFilter =>
      "scalar filter \"opr\" field is deprecated, please switch to the operator fields"

end Notice

structure NoticeLog where
  reported : List Subject := []
deriving DecidableEq, Repr

namespace NoticeLog

def report (log : NoticeLog) : List Notice → NoticeLog × List Notice
  | [] => (log, [])
  | notice :: rest =>
      if notice.subject ∈ log.reported then log.report rest
      else
        let (after, passed) := report ⟨log.reported ++ [notice.subject]⟩ rest
        (after, notice :: passed)

def reset (_ : NoticeLog) : NoticeLog := {}

end NoticeLog

structure Outcome (α : Type) where
  raised : List Notice
  result : Except Error α

namespace Outcome

variable {α β : Type}

def ok (value : α) : Outcome α := ⟨[], .ok value⟩

def fail (error : Error) : Outcome α := ⟨[], .error error⟩

def raise (notice : Notice) : Outcome Unit := ⟨[notice], .ok ()⟩

def ofExcept (result : Except Error α) : Outcome α := ⟨[], result⟩

def andThen (first : Outcome α) (next : α → Outcome β) : Outcome β :=
  match first.result with
  | .error error => ⟨first.raised, .error error⟩
  | .ok value => ⟨first.raised ++ (next value).raised, (next value).result⟩

instance : Monad Outcome where
  pure := ok
  bind := andThen

instance : MonadLift (Except Error) Outcome where
  monadLift := ofExcept

end Outcome

end DocGraph
