import Libjaypea.JsonTermination
import Libjaypea.HttpRequestHead
import Libjaypea.CacheBudget
import Libjaypea.SymmetricReplay
import Libjaypea.SymmetricLockStep
import Libjaypea.SymmetricStream
import Libjaypea.DispatchAnswers
import Libjaypea.DispatchCalls
import Libjaypea.SessionExpiry
import Libjaypea.RateLimit
import Libjaypea.CaptchaRun
import Libjaypea.ThreadListening
import Libjaypea.WebsocketSession
import Libjaypea.ClientRearm
import Libjaypea.WebsocketStream
import Libjaypea.WebsocketFrames
import Libjaypea.FileChunks
import Libjaypea.OpenFiles
import Libjaypea.CacheFill
import Libjaypea.StringSearch
import Libjaypea.TemplateTermination
import Libjaypea.TemplatePages
import Libjaypea.TemplateRendering
import Libjaypea.ContentLength
import Libjaypea.RequestTexts
import Libjaypea.PublicFiles
import Libjaypea.RequestLine
import Libjaypea.HeadParts
import Libjaypea.HeadReading
import Libjaypea.HttpRequestBounds
import Libjaypea.HiddenLeaks
import Libjaypea.SoftDeletion
import Libjaypea.DistributedNode
import Libjaypea.TokenTrip
import Libjaypea.JsonBounds
import Libjaypea.ComdSession
import Libjaypea.AliveConnections
import Libjaypea.UrlEncoding
import Libjaypea.EscapeTrip
import Libjaypea.ValidJson
import Libjaypea.InsertStatement
import Libjaypea.StatementLexing
import Libjaypea.ReceiveLoops
import Libjaypea.HeadPasses
import Libjaypea.EncodedTargets
import Libjaypea.EncodedRequests
import Libjaypea.FormFields
import Libjaypea.SymmetricFailures
import Libjaypea.ChangedRows
import Libjaypea.Jph2Handlers
import Libjaypea.RowOwnership
import Libjaypea.DoublyLinked
import Libjaypea.Queue
import Libjaypea.Runs
import Libjaypea.CleanRoute
import Libjaypea.UrlPieces
import Libjaypea.StrictCompare
import Libjaypea.Splinters
import Libjaypea.ChatMessages
import Libjaypea.KeyedTables
import Libjaypea.TanksGame
import Libjaypea.TanksTables
import Libjaypea.TanksAnnouncements
import Libjaypea.TanksMotion
import Libjaypea.ClientArming
import Libjaypea.NewestWrites
import Libjaypea.PonalServer
import Libjaypea.PonalConnections
import Libjaypea.ComClient
import Libjaypea.ComAgreement
import Libjaypea.ComDialogue
import Libjaypea.RecentEntries
import Libjaypea.MessageBoard
import Libjaypea.ChatHistory
import Libjaypea.PollServer
import Libjaypea.PollAccounts
import Libjaypea.PollEcho
import Libjaypea.Stack
import Libjaypea.Arguments
import Libjaypea.ArgumentSources
import Libjaypea.Jph2Settings
import Libjaypea.TlsObjects
import Libjaypea.Redirection
