import Bankie.Handlers
import Bankie.Stored

/-!
The bodies of requests.
A command is deserialized from the body of a request, and so is a house account. The ids that a
client must not choose are skipped there and drawn anew. What a client serializes is read back
in whatever order its members come, and a body that cannot be read leaves the service as it was.
-/
namespace Bankie

open Program

section Codecs

def Uuid.codec : Codec Uuid :=
  Codec.scalar (fun u => .string u.toString) (fun j => j.asStr.bind Uuid.parseStr)
    (fun u => u.parseStr_toString) (fun _ => rfl) (fun _ => rfl)

def Uuid.nil : Uuid := Uuid.ofNat 0

namespace BankAccountCommand

/-! The fields that are read; the others are skipped. -/

def openAccountFields : Fields (BankAccountType × BankAccountKind × String × Currency × Unit) :=
  .cons "account_type" BankAccountType.codec <| .cons "kind" BankAccountKind.codec <|
    .cons "user_id" .string <| .cons "currency" Currency.codec .nil

def approveAccountFields : Fields (Uuid × Unit) := .cons "id" Uuid.codec .nil

def orderFields : Fields (Uuid × Money × Unit) :=
  .cons "id" Uuid.codec <| .cons "amount" Money.codec .nil

def openAccountCodec : Codec (BankAccountType × BankAccountKind × String × Currency × Unit) :=
  Codec.tuple openAccountFields (by decide)

def approveAccountCodec : Codec (Uuid × Unit) :=
  Codec.tuple approveAccountFields (by decide)

def orderCodec : Codec (Uuid × Money × Unit) :=
  Codec.tuple orderFields (by decide)

def tag : BankAccountCommand → String
  | .openAccount .. => "OpenAccount"
  | .approveAccount .. => "ApproveAccount"
  | .deposit .. => "Deposit"
  | .withdrawal .. => "Withdrawal"

/-- The members that are written; `parent_id` is left out where there is none. -/
def members : BankAccountCommand → List (String × Json)
  | .openAccount id parentId accountType kind userId currency =>
    ("id", Uuid.codec.encode id) ::
      (parentId.toList.map fun parent => ("parent_id", Uuid.codec.encode parent)) ++
        openAccountFields.encode (accountType, kind, userId, currency, ())
  | .approveAccount id ledgerId =>
    approveAccountFields.encode (id, ()) ++ [("ledger_id", Uuid.codec.encode ledgerId)]
  | .deposit id amount => orderFields.encode (id, amount, ())
  | .withdrawal id amount => orderFields.encode (id, amount, ())

def toJson (c : BankAccountCommand) : Json := .object [(c.tag, .object c.members)]

def read (tag : String) (body : Json) : Option BankAccountCommand :=
  if tag = "OpenAccount" then
    (openAccountCodec.decode body).map fun p =>
      .openAccount .nil none p.1 p.2.1 p.2.2.1 p.2.2.2.1
  else if tag = "ApproveAccount" then
    (approveAccountCodec.decode body).map fun p => .approveAccount p.1 .nil
  else if tag = "Deposit" then (orderCodec.decode body).map fun p => .deposit p.1 p.2.1
  else if tag = "Withdrawal" then (orderCodec.decode body).map fun p => .withdrawal p.1 p.2.1
  else none

def fromJson : Json → Option BankAccountCommand := Codec.readVariant read

/-- What is read back of a command: the skipped ids have their defaults. -/
def received : BankAccountCommand → BankAccountCommand
  | .openAccount _ _ accountType kind userId currency =>
    .openAccount .nil none accountType kind userId currency
  | .approveAccount id _ => .approveAccount id .nil
  | command => command

theorem read_reorders (tag : String) (j j' : Json) (h : j.Reorders j') :
    read tag j = read tag j' := by
  rw [read, read, openAccountCodec.decode_reorders _ _ h,
    approveAccountCodec.decode_reorders _ _ h, orderCodec.decode_reorders _ _ h]

theorem openAccountCodec_members (id : Uuid) (parentId : Option Uuid)
    (accountType : BankAccountType) (kind : BankAccountKind) (userId : String)
    (currency : Currency) :
    openAccountCodec.decode
        (.object (members (.openAccount id parentId accountType kind userId currency))) =
      some (accountType, kind, userId, currency, ()) := by
  refine Codec.tuple_decode ?_ fun field hfield => ?_
  · cases parentId with
    | none =>
      change ("id" :: openAccountFields.names).Nodup
      decide
    | some parent =>
      change ("id" :: "parent_id" :: openAccountFields.names).Nodup
      decide
  · exact List.mem_append_right _ hfield

theorem approveAccountCodec_members (id ledgerId : Uuid) :
    approveAccountCodec.decode (.object (members (.approveAccount id ledgerId))) =
      some (id, ()) := by
  refine Codec.tuple_decode ?_ fun field hfield => ?_
  · change (approveAccountFields.names ++ ["ledger_id"]).Nodup
    decide
  · exact List.mem_append_left _ hfield

theorem read_members (c : BankAccountCommand) :
    read c.tag (.object c.members) = some c.received := by
  cases c with
  | openAccount id parentId accountType kind userId currency =>
    change (openAccountCodec.decode _).map _ = _
    rw [openAccountCodec_members]
    rfl
  | approveAccount id ledgerId =>
    change (approveAccountCodec.decode _).map _ = _
    rw [approveAccountCodec_members]
    rfl
  | deposit id amount =>
    change (orderCodec.decode (orderCodec.encode (id, amount, ()))).map _ = _
    rw [orderCodec.decode_encode]
    rfl
  | withdrawal id amount =>
    change (orderCodec.decode (orderCodec.encode (id, amount, ()))).map _ = _
    rw [orderCodec.decode_encode]
    rfl

/-- A command is read back, but for the ids that are skipped. -/
theorem fromJson_stored (c : BankAccountCommand) {j : Json} (h : c.toJson.Reorders j) :
    fromJson j = some c.received := by
  rw [fromJson, ← Codec.readVariant_reorders read_reorders h]
  exact read_members c

end BankAccountCommand

namespace HouseAccount

def fields : Fields (String × String × String × Currency × Unit) :=
  .cons "status" .string <| .cons "account_name" .string <| .cons "account_type" .string <|
    .cons "currency" Currency.codec .nil

def members (h : HouseAccount) : List (String × Json) :=
  [("id", Uuid.codec.encode h.id), ("status", .string h.status),
    ("account_number", .string h.accountNumber), ("account_name", .string h.accountName),
    ("account_type", .string h.accountType), ("ledger_id", .string h.ledgerId),
    ("currency", Currency.codec.encode h.currency)]

def toJson (h : HouseAccount) : Json := .object h.members

/-- The id, the number and the ledger are skipped. -/
def fromJson (j : Json) : Option HouseAccount :=
  ((Codec.tuple fields (by decide)).decode j).map fun p => {
    id := .nil
    status := p.1
    accountNumber := ""
    accountName := p.2.1
    accountType := p.2.2.1
    ledgerId := ""
    currency := p.2.2.2.1 }

end HouseAccount

end Codecs

section Extractors

/-- The answer to a body that cannot be read; its own body is a plain text. -/
def unreadable (message : String) : Response where
  status := 400
  body := .string message

/-- `CommandExtractor`; a body that is no JSON is `none`. -/
def commandExtractor (fresh : Uuid) (body : Option Json) : Except Response BankAccountCommand :=
  match body.bind BankAccountCommand.fromJson with
  | none => .error (unreadable "command could not be read")
  | some command => .ok (extractCommand fresh command)

/-- `HouseAccountExtractor` -/
def houseAccountExtractor (id : Uuid) (accountNumber : String) (body : Option Json) :
    Except Response HouseAccount :=
  match body.bind HouseAccount.fromJson with
  | none => .error (unreadable "house_account could not be read")
  | some houseAccount => .ok (extractHouseAccount id accountNumber houseAccount)

def postCommand (fresh : Uuid) (body : Option Json) (st : System) : Response × System :=
  match commandExtractor fresh body with
  | .error response => (response, st)
  | .ok command => bankAccountCommandHandler command st

theorem System.send_cases (command : BankAccountCommand) (st : System) :
    st.send command = (.err "channel closed", st) ∨
      st.send command = (.ok (), { st with
        submitted := st.submitted ++ [command]
        channel := st.channel ++ [command] }) := by
  unfold send
  split
  · exact Or.inl rfl
  · exact Or.inr rfl

end Extractors

/-- A command that a client serializes is submitted, in whatever order its members come and
whatever ids they name: the request is the step of the service. -/
theorem posted_command {c : BankAccountCommand} {j : Json} (h : c.toJson.Reorders j) {fresh : Uuid}
    {st : System} (hfresh : st.Fresh [fresh]) :
    commandExtractor fresh (some j) = .ok (extractCommand fresh c) ∧
      st.submit fresh c =
        some { (postCommand fresh (some j) st).2 with used := fresh :: st.used } := by
  have hextracted : commandExtractor fresh (some j) = .ok (extractCommand fresh c) := by
    rw [commandExtractor, Option.bind_some, c.fromJson_stored h]
    cases c <;> rfl
  refine ⟨hextracted, ?_⟩
  rw [postCommand, hextracted, System.submit, if_pos hfresh]
  change _ = some { (bankAccountCommandHandler (extractCommand fresh c) st).2 with
    used := fresh :: st.used }
  rw [bankAccountCommandHandler, System.send]
  obtain ⟨store, used, submitted, channel, consumer, ticks, requests⟩ := st
  rcases consumer with (x | e | e) | ⟨c, k⟩ <;> rfl

/-- A deposit whose amount comes before its id. -/
theorem posted_command_deposit : ∃ j : Json,
    j = .object [("Deposit", .object [("amount", Money.codec.encode (Scenario.usd 100)),
      ("id", Uuid.codec.encode (Scenario.uid 10))])] ∧
    commandExtractor (Scenario.uid 12) (some j) =
      .ok (.deposit (Scenario.uid 10) (Scenario.usd 100)) ∧
    (System.init []).submit (Scenario.uid 12) (.deposit (Scenario.uid 10) (Scenario.usd 100)) =
      some { (postCommand (Scenario.uid 12) (some j) (System.init [])).2 with
        used := [Scenario.uid 12] } := by
  have hfresh : (System.init []).Fresh [Scenario.uid 12] := by decide
  have horder : (BankAccountCommand.deposit (Scenario.uid 10) (Scenario.usd 100)).toJson.Reorders
      (.object [("Deposit", .object [("amount", Money.codec.encode (Scenario.usd 100)),
        ("id", Uuid.codec.encode (Scenario.uid 10))])]) :=
    Json.Reorders.member [] [] "Deposit" (Json.Reorders.members
      (by change BankAccountCommand.orderFields.names.Nodup; decide) (List.Perm.swap _ _ _))
  exact ⟨_, rfl, posted_command horder hfresh⟩

end Bankie
