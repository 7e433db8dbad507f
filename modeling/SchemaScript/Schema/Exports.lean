import SchemaScript.Schema.Declaration

/-!
# Exports

The declarations of a file that its module exports, in the order of the module.

The enums come before the messages.  An enum at the top stands before the enums in messages, and a
message before the messages in it.  The entries of maps in a message are left out, and with them
what is declared in them.
-/

namespace SchemaScript

mutual

/-- A message and the visible messages in it, the message first. -/
def Message.withNested : Message → List Message
  | ⟨file, fullName, symbol, parent, location, isMapEntry, oneofs, fields, messages, enums⟩ =>
    ⟨file, fullName, symbol, parent, location, isMapEntry, oneofs, fields, messages, enums⟩ ::
      Message.visibleNested messages

/-- The visible ones among messages, and the visible messages in them. -/
def Message.visibleNested : List Message → List Message
  | [] => []
  | m :: rest => (if m.isMapEntry then [] else m.withNested) ++ Message.visibleNested rest

end

namespace File

/-- The messages that code is generated for, each before the messages in it. -/
def allMessages (f : File) : List Message :=
  f.messages.flatMap Message.withNested

/-- The enums that code is generated for, those at the top first. -/
def allEnums (f : File) : List Enum :=
  f.enums ++ f.allMessages.flatMap Message.enums

end File

end SchemaScript
