import TinyhackSsh.Lib.Runs
import TinyhackSsh.Lib.Fair
import TinyhackSsh.Lib.Base64
import TinyhackSsh.Lib.Batches
import TinyhackSsh.Lib.OrderedMap
import TinyhackSsh.Lib.Quota
import TinyhackSsh.Lib.Words
import TinyhackSsh.Lib.IndexedWrites
import TinyhackSsh.Lib.Getopt
import TinyhackSsh.Lib.ShellWords
import TinyhackSsh.Lib.ShellTokens
import TinyhackSsh.Lib.ModifiedUtf8
import TinyhackSsh.Lib.PosixWrite
import TinyhackSsh.Lib.DrivenLoop
import TinyhackSsh.Lib.SparseFile
import TinyhackSsh.Lib.WrappedText
import TinyhackSsh.Lib.JoinedLines
import TinyhackSsh.Lib.Slots
import TinyhackSsh.Lib.Protobuf
import TinyhackSsh.Lib.TopBit
import TinyhackSsh.Spec.Sessions
import TinyhackSsh.Spec.Wire
import TinyhackSsh.Spec.AgentServer
import TinyhackSsh.Spec.BiometricGate
import TinyhackSsh.Spec.BiometricPrompts
import TinyhackSsh.Spec.AgentRequests
import TinyhackSsh.Spec.AgentMap
import TinyhackSsh.Spec.ReadLoop
import TinyhackSsh.Spec.Profiles
import TinyhackSsh.Spec.Render
import TinyhackSsh.Spec.KittyCache
import TinyhackSsh.Spec.KittyPixels
import TinyhackSsh.Spec.SessionPointer
import TinyhackSsh.Spec.AgentManager
import TinyhackSsh.Spec.NotificationText
import TinyhackSsh.Spec.Notifications
import TinyhackSsh.Spec.NotificationQueue
import TinyhackSsh.Spec.TerminalView
import TinyhackSsh.Spec.TextRuns
import TinyhackSsh.Spec.Clipboard
import TinyhackSsh.Spec.Launch
import TinyhackSsh.Spec.MoshLauncher
import TinyhackSsh.Spec.MoshConnect
import TinyhackSsh.Spec.SshAdd
import TinyhackSsh.Spec.SshCommandLine
import TinyhackSsh.Spec.ProfileEndpoints
import TinyhackSsh.Spec.TerminalInput
import TinyhackSsh.Spec.SelectionPin
import TinyhackSsh.Spec.SelectionDrag
import TinyhackSsh.Spec.ChildExit
import TinyhackSsh.Spec.SecurityKeySignature
import TinyhackSsh.Spec.KeyFiles
import TinyhackSsh.Spec.ChildEnvironment
import TinyhackSsh.Spec.NativeInput
import TinyhackSsh.Spec.ProfileForm
import TinyhackSsh.Spec.Prompts
import TinyhackSsh.Spec.JavaStrings
import TinyhackSsh.Spec.SparseImage
import TinyhackSsh.Spec.SecurityKeyFiles
import TinyhackSsh.Spec.MoshFragments
import TinyhackSsh.Spec.MoshTransport
import TinyhackSsh.Spec.UserStream
import TinyhackSsh.Spec.MoshMessages
import TinyhackSsh.Spec.MoshSession
import TinyhackSsh.Spec.MoshConnection
import TinyhackSsh.Spec.MoshSecured
import TinyhackSsh.Proofs.CurrentSession
import TinyhackSsh.Proofs.Utf8
import TinyhackSsh.Proofs.Wire
import TinyhackSsh.Proofs.AgentSteps
import TinyhackSsh.Proofs.AgentLock
import TinyhackSsh.Proofs.AgentIncarnation
import TinyhackSsh.Proofs.AgentAccept
import TinyhackSsh.Proofs.BiometricGate
import TinyhackSsh.Proofs.PromptBoard
import TinyhackSsh.Proofs.BiometricPrompts
import TinyhackSsh.Proofs.AgentRequests
import TinyhackSsh.Proofs.AgentMap
import TinyhackSsh.Proofs.AgentListing
import TinyhackSsh.Proofs.ReadLoop
import TinyhackSsh.Proofs.ProfileSecrets
import TinyhackSsh.Proofs.RenderBounds
import TinyhackSsh.Proofs.KittyCache
import TinyhackSsh.Proofs.SessionPointer
import TinyhackSsh.Proofs.AgentManager
import TinyhackSsh.Proofs.NotificationAssembly
import TinyhackSsh.Proofs.NotificationSteps
import TinyhackSsh.Proofs.NotificationChunks
import TinyhackSsh.Proofs.NotificationLedger
import TinyhackSsh.Proofs.NotificationQueue
import TinyhackSsh.Proofs.NotificationReplies
import TinyhackSsh.Proofs.NotificationTransactions
import TinyhackSsh.Proofs.NotificationLimits
import TinyhackSsh.Proofs.NotificationRate
import TinyhackSsh.Proofs.NotificationSweep
import TinyhackSsh.Proofs.KittyExport
import TinyhackSsh.Proofs.KittyPixels
import TinyhackSsh.Proofs.Drawing
import TinyhackSsh.Proofs.SuspendedFrame
import TinyhackSsh.Proofs.Clipboard
import TinyhackSsh.Proofs.Launch
import TinyhackSsh.Proofs.MoshCommand
import TinyhackSsh.Proofs.MoshConnect
import TinyhackSsh.Proofs.MoshRemote
import TinyhackSsh.Proofs.ForwardAgent
import TinyhackSsh.Proofs.ProfileIds
import TinyhackSsh.Proofs.EscPending
import TinyhackSsh.Proofs.SelectionPin
import TinyhackSsh.Proofs.SelectionDrag
import TinyhackSsh.Proofs.KeyboardReset
import TinyhackSsh.Proofs.PasteTarget
import TinyhackSsh.Proofs.ChildExit
import TinyhackSsh.Proofs.SecurityKeySignature
import TinyhackSsh.Proofs.KeyFiles
import TinyhackSsh.Proofs.EncodedChunks
import TinyhackSsh.Proofs.ProxyCommand
import TinyhackSsh.Proofs.ChildEnvironment
import TinyhackSsh.Proofs.NativeText
import TinyhackSsh.Proofs.PtyWrites
import TinyhackSsh.Proofs.ImeBytes
import TinyhackSsh.Proofs.Destination
import TinyhackSsh.Proofs.ProfileRoundTrip
import TinyhackSsh.Proofs.ProfileLoading
import TinyhackSsh.Proofs.ProfileForm
import TinyhackSsh.Proofs.PromptScroll
import TinyhackSsh.Proofs.OutputText
import TinyhackSsh.Proofs.JavaStrings
import TinyhackSsh.Proofs.CommandOutput
import TinyhackSsh.Proofs.LastOutput
import TinyhackSsh.Proofs.SparseImage
import TinyhackSsh.Proofs.SshAdd
import TinyhackSsh.Proofs.SecurityKeyFiles
import TinyhackSsh.Proofs.TextRuns
import TinyhackSsh.Proofs.MoshFragments
import TinyhackSsh.Proofs.MoshMessages
import TinyhackSsh.Proofs.MoshConnection
import TinyhackSsh.Proofs.MoshSecured
