import Bankie.Domain

/-!
The two folds of the bank account events.
Commands are handled on the replayed aggregate, checks read the projected view. Both
folds are total; events about cash only delegate to the ledger and change nothing.
-/
namespace Bankie

namespace BankAccount

def apply (self : BankAccount) : BankAccountEvent → BankAccount
  | .accountOpened accountType kind currency userId baseEvent =>
    { self with
      id := baseEvent.aggregateId
      status := .pending
      timestamp := baseEvent.createdAt
      accountType := accountType
      kind := kind
      currency := currency
      userId := userId }
  | .accountKycApproved ledgerId baseEvent =>
    { self with
      id := baseEvent.aggregateId
      ledgerId := ledgerId
      status := .approved
      timestamp := baseEvent.createdAt }
  | .customerDepositedCash .. => self
  | .customerWithdrewCash .. => self

def replay (log : List BankAccountEvent) : BankAccount := log.foldl apply default

end BankAccount

namespace BankAccountView

def update (self : BankAccountView) : BankAccountEvent → BankAccountView
  | .accountOpened accountType kind currency userId baseEvent =>
    { self with
      id := baseEvent.aggregateId
      parentId := baseEvent.parentId
      status := .pending
      createdAt := baseEvent.createdAt
      updatedAt := baseEvent.createdAt
      accountType := accountType
      kind := kind
      currency := currency
      userId := userId }
  | .accountKycApproved ledgerId baseEvent =>
    { self with
      id := baseEvent.aggregateId
      parentId := baseEvent.parentId
      ledgerId := ledgerId
      status := .approved
      updatedAt := baseEvent.createdAt }
  | .customerDepositedCash .. => self
  | .customerWithdrewCash .. => self

def project (log : List BankAccountEvent) : BankAccountView := log.foldl update default

end BankAccountView

namespace BankAccountStatus

/-- The text that a derived serializer stores. -/
def serde : BankAccountStatus → String
  | .pending => "Pending"
  | .approved => "Approved"
  | .freeze => "Freeze"
  | .customerClosed => "CustomerClosed"
  | .terminated => "Terminated"

end BankAccountStatus

namespace BankAccountKind

def toString : BankAccountKind → String
  | .checking => "Checking"
  | .interest => "Interest"
  | .yield => "Yield"

def serde : BankAccountKind → String
  | .checking => "Checking"
  | .interest => "Interest"
  | .yield => "Yield"

end BankAccountKind

/-- The text that a serializer with `rename_all = "UPPERCASE"` stores. -/
def Currency.serde : Currency → String
  | .usd => "USD"
  | .twd => "TWD"

end Bankie
