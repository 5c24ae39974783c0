/-! What a run tells while it works: messages for its user, and the records that plugins leave. -/

namespace Phrasebook

inductive Level where
  | info | warning | error
deriving DecidableEq, Repr, Inhabited

def Level.name : Level → String
  | .info => "INFO"
  | .warning => "WARNING"
  | .error => "ERROR"

structure Message where
  level : Level
  text : String
deriving DecidableEq, Repr, Inhabited

def Message.render (message : Message) : String := message.level.name ++ " " ++ message.text

structure Journal where
  messages : List Message := []
  records : List String := []
deriving DecidableEq, Repr, Inhabited

namespace Journal

def note (journal : Journal) (level : Level) (text : String) : Journal :=
  { journal with messages := journal.messages ++ [⟨level, text⟩] }

def record (journal : Journal) (text : String) : Journal := { journal with records := journal.records ++ [text] }

end Journal

end Phrasebook
