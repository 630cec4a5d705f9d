import Zolana.Properties.Attribution
import Zolana.Properties.Authorization
import Zolana.Properties.Codec
import Zolana.Properties.Events
import Zolana.Properties.ExternalData
import Zolana.Properties.Folds
import Zolana.Properties.NullifierRoots
import Zolana.Properties.ReferenceCache
import Zolana.Properties.History
import Zolana.Properties.Ladder
import Zolana.Properties.Liveness
import Zolana.Properties.Lookup
import Zolana.Properties.MergeOutput
import Zolana.Properties.Nullifiers
import Zolana.Properties.Reimbursement
import Zolana.Properties.Reserve
import Zolana.Properties.Selection
import Zolana.Properties.SettlementAccounts
import Zolana.Properties.TreeCreation
import Zolana.Properties.ValueConservation
