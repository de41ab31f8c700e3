import ShareBike.Lib.Words
import ShareBike.Lib.Bytes
import ShareBike.Lib.CStrings
import ShareBike.Lib.Stdio
import ShareBike.Lib.Printf
import ShareBike.Lib.Posix
import ShareBike.Lib.AllocTrace
import ShareBike.Lib.Transition
import ShareBike.Lib.Progress
import ShareBike.Lib.LinkedQueue
import ShareBike.Lib.FirstFit
import ShareBike.Lib.Text
import ShareBike.Lib.FileSystem
import ShareBike.Lib.Generations
import ShareBike.Lib.Extract
import ShareBike.Lib.Groups
import ShareBike.Lib.Lex
import ShareBike.MemoryPool
import ShareBike.MemoryPoolLayout
import ShareBike.MemoryPoolInvariant
import ShareBike.MemoryPoolOwnership
import ShareBike.MemoryPoolSafety
import ShareBike.MemoryPoolFailure
import ShareBike.MemoryPoolFit
import ShareBike.MemoryPoolCounters
import ShareBike.MemoryPoolReuse
import ShareBike.MemoryPoolFree
import ShareBike.MemoryPoolCycles
import ShareBike.ThreadPool
import ShareBike.ThreadPoolQueue
import ShareBike.ThreadPoolRuns
import ShareBike.ThreadPoolDestroy
import ShareBike.ThreadPoolWakeup
import ShareBike.ThreadPoolWaiting
import ShareBike.ThreadPoolCapacity
import ShareBike.ThreadPoolErrors
import ShareBike.ThreadPoolShutdown
import ShareBike.ThreadPoolInit
import ShareBike.ThreadPoolDrain
import ShareBike.SelectServer
import ShareBike.PollServer
import ShareBike.PollTable
import ShareBike.Comm
import ShareBike.CommTable
import ShareBike.CommLoop
import ShareBike.CommIndices
import ShareBike.CommRegistration
import ShareBike.CommHandlers
import ShareBike.Echo
import ShareBike.EchoBuffer
import ShareBike.EchoTable
import ShareBike.EchoDelivery
import ShareBike.CommTimers
import ShareBike.CommSelect
import ShareBike.HttpConnection
import ShareBike.HttpRequest
import ShareBike.HttpRequestFields
import ShareBike.HttpServer
import ShareBike.HttpServerSafety
import ShareBike.HttpTwoFiles
import ShareBike.HttpScan
import ShareBike.HttpStrings
import ShareBike.HttpCommit
import ShareBike.HttpResponse
import ShareBike.Semaphore
import ShareBike.Tickets
import ShareBike.TicketsEnd
import ShareBike.MessageQueue
import ShareBike.MessageQueueRuns
import ShareBike.MessageQueueConversation
import ShareBike.Iniconfig
import ShareBike.RollingFile
import ShareBike.RollingFileNames
import ShareBike.RollingFileRuns
import ShareBike.RollingFileRetention
import ShareBike.Category
import ShareBike.CategoryTable
import ShareBike.Properties
import ShareBike.PropertiesLoad
import ShareBike.PropertiesSubstitute
import ShareBike.PatternLayout
import ShareBike.PatternLayoutParse
import ShareBike.PatternLayoutCategory
import ShareBike.PropertyConfigurator
import ShareBike.PropertyConfiguratorAppenders
import ShareBike.PropertyConfiguratorCategories
import ShareBike.Main
import ShareBike.MainRuns
