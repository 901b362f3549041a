import PdiStack.Crypto.BignumRefinement
import PdiStack.Database.DirectoryCheck
import PdiStack.Database.Generations
import PdiStack.Http.ClientUrl
import PdiStack.Http.RequestDispatch
import PdiStack.Http.UploadRequest
import PdiStack.Mqtt.ReceiveFraming
import PdiStack.Queue.PacketFifo
import PdiStack.Scheduler.FinalizerLedger
import PdiStack.Scheduler.TaskOrder
import PdiStack.Shell.CommandLookup
import PdiStack.Shell.CommandText
import PdiStack.Shell.ForList
import PdiStack.Shell.NamedOptions
import PdiStack.Shell.PipeLoss
import PdiStack.Shell.Redirection
import PdiStack.Shell.ScriptConditions
import PdiStack.Shell.ScriptRefinement
import PdiStack.Ssh.Account
import PdiStack.Ssh.Keystream
import PdiStack.Ssh.SftpReplies
import PdiStack.Storage.MountTable
import PdiStack.Storage.PathNotations
import PdiStack.Storage.TmpEdit
import PdiStack.User.AccountChange
import PdiStack.User.AddUser
import PdiStack.Utility.AesChunks
import PdiStack.Utility.IpAddress
import PdiStack.Web.CsrfGuard
import PdiStack.Web.CurrentSession
import PdiStack.Web.SessionAge
import PdiStack.Web.UploadRoute
