import Chamneul.Proofs.BrowserSignIns
import Chamneul.Proofs.RoundTrips
import Chamneul.Proofs.Answered
import Chamneul.Proofs.Constraints
import Chamneul.Proofs.ForeignKeys
import Chamneul.Proofs.Accountability
import Chamneul.Proofs.ApplicationLifecycle
import Chamneul.Proofs.OneApplication
import Chamneul.Proofs.ConcernLifecycle
import Chamneul.Proofs.ConcernText
import Chamneul.Proofs.AdviceLifecycle
import Chamneul.Proofs.AdviceAuthority
import Chamneul.Proofs.OptimisticLock
import Chamneul.Proofs.FeedbackLifecycle
import Chamneul.Proofs.FeedbackIntegrity
import Chamneul.Proofs.Correspondence
import Chamneul.Proofs.UnreviewedAdvice
import Chamneul.Proofs.Anonymity
import Chamneul.Proofs.ListPages
import Chamneul.Proofs.StaleWrites
import Chamneul.Proofs.Addresses
import Chamneul.Proofs.ResetLinks
import Chamneul.Proofs.Eviction
import Chamneul.Proofs.GoogleSignIn
import Chamneul.Proofs.ConcurrentSignIn
import Chamneul.Proofs.RoleLifecycle
import Chamneul.Proofs.RoleAudit
import Chamneul.Proofs.RoleRefusals
import Chamneul.Proofs.RoleDeadlock
import Chamneul.Proofs.Reapplication
import Chamneul.Proofs.ReviewQueue
import Chamneul.Proofs.ReadNotifications
import Chamneul.Proofs.RolledBackSaves
import Chamneul.Proofs.Lowering
import Chamneul.Proofs.LookAlikes
import Chamneul.Proofs.NewAccounts
import Chamneul.Proofs.NicknameBase
import Chamneul.Proofs.DisplayNames
import Chamneul.Proofs.GoogleReplies
import Chamneul.Proofs.Origins
import Chamneul.Proofs.StoredData
import Chamneul.Proofs.RoundTrips
