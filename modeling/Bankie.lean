import Bankie.Amounts
import Bankie.Authorization
import Bankie.Commands
import Bankie.Conservation
import Bankie.Drain
import Bankie.Duplicates
import Bankie.FailedWithdrawals
import Bankie.Folds
import Bankie.HouseAccounts
import Bankie.Isolation
import Bankie.LedgerRows
import Bankie.Lock
import Bankie.Sessions
import Bankie.StoredService
import Bankie.TrialBalance
import Bankie.UserAccounts
import Bankie.Validate
