import ResendConversation.AcceptedIds
import ResendConversation.AllowlistLocks
import ResendConversation.ArrivalOrder
import ResendConversation.AttachmentClaims
import ResendConversation.AttachmentOutbox
import ResendConversation.Attachments
import ResendConversation.Background
import ResendConversation.BatchPayloads
import ResendConversation.CallWindows
import ResendConversation.Calls
import ResendConversation.Claims
import ResendConversation.Coherence
import ResendConversation.Commits
import ResendConversation.Conservation
import ResendConversation.Constraints
import ResendConversation.ContentIds
import ResendConversation.Conversation
import ResendConversation.Cursors
import ResendConversation.Dates
import ResendConversation.Delivery
import ResendConversation.DeliveryBackfill
import ResendConversation.DeliveryColumns
import ResendConversation.DeliveryOrder
import ResendConversation.DisplayNames
import ResendConversation.Downloads
import ResendConversation.DrainProgress
import ResendConversation.DrainSteps
import ResendConversation.Effects
import ResendConversation.EntryDrains
import ResendConversation.EventNumbers
import ResendConversation.FileSteps
import ResendConversation.FinalizationCommits
import ResendConversation.Foundation.Base64
import ResendConversation.Foundation.Calendar
import ResendConversation.Foundation.Digits
import ResendConversation.Foundation.Events
import ResendConversation.Foundation.Foremost
import ResendConversation.Foundation.Forest
import ResendConversation.Foundation.IdempotentService
import ResendConversation.Foundation.Keyset
import ResendConversation.Foundation.Like
import ResendConversation.Foundation.Table
import ResendConversation.Foundation.Transaction
import ResendConversation.Foundation.Transition
import ResendConversation.Foundation.Utf8
import ResendConversation.Frames
import ResendConversation.HeldAttachments
import ResendConversation.Hydration
import ResendConversation.HydrationCompleteness
import ResendConversation.Inbound
import ResendConversation.IngestAttempts
import ResendConversation.IngestMoves
import ResendConversation.Isolation
import ResendConversation.JsString
import ResendConversation.Json
import ResendConversation.JsonParse
import ResendConversation.KeyUses
import ResendConversation.Lanes
import ResendConversation.LastEvents
import ResendConversation.LastMessages
import ResendConversation.LeaseFencing
import ResendConversation.LetterCase
import ResendConversation.Listings
import ResendConversation.MailTransactions
import ResendConversation.MergeThreads
import ResendConversation.MessageTimes
import ResendConversation.Normalization
import ResendConversation.ObjectSteps
import ResendConversation.OneEmail
import ResendConversation.Operator
import ResendConversation.OperatorThreads
import ResendConversation.Origins
import ResendConversation.Outbox
import ResendConversation.Pagination
import ResendConversation.Payload
import ResendConversation.ProcessFrames
import ResendConversation.Processes
import ResendConversation.ProjectThreads
import ResendConversation.Projection
import ResendConversation.Proper
import ResendConversation.Provider
import ResendConversation.PublicationOrder
import ResendConversation.PublisherSteps
import ResendConversation.Publishers
import ResendConversation.Queue
import ResendConversation.QueueComplete
import ResendConversation.QueueLanes
import ResendConversation.Received
import ResendConversation.ReceivedMail
import ResendConversation.RecordThreads
import ResendConversation.ReplyForest
import ResendConversation.ReplyRouting
import ResendConversation.ReplySubjects
import ResendConversation.Requests
import ResendConversation.Routing
import ResendConversation.RoutingCodec
import ResendConversation.ScheduledDrains
import ResendConversation.Schema
import ResendConversation.SendRequests
import ResendConversation.SendStates
import ResendConversation.SendSteps
import ResendConversation.SendThreads
import ResendConversation.SendValidation
import ResendConversation.Settlement
import ResendConversation.StateMerges
import ResendConversation.StatementRows
import ResendConversation.StatementSequences
import ResendConversation.Statements
import ResendConversation.StepEffects
import ResendConversation.StepStatements
import ResendConversation.StorableTexts
import ResendConversation.StoredObjects
import ResendConversation.Storing
import ResendConversation.Succession
import ResendConversation.System
import ResendConversation.Termination
import ResendConversation.ThreadRuns
import ResendConversation.ThreadSteps
import ResendConversation.Threading
import ResendConversation.ThreadingMetadata
import ResendConversation.Threads
import ResendConversation.Tokens
import ResendConversation.UniqueLists
import ResendConversation.Weaving
import ResendConversation.Writes
