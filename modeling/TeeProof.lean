import TeeProof.Aggregate
import TeeProof.Agreement
import TeeProof.AliyunCanonical
import TeeProof.AliyunHelper
import TeeProof.AliyunProof
import TeeProof.AliyunVtpm
import TeeProof.Answers
import TeeProof.AnthropicAgreement
import TeeProof.Assoc
import TeeProof.Attest
import TeeProof.Base64
import TeeProof.BedrockAgreement
import TeeProof.BigEndian
import TeeProof.Brackets
import TeeProof.Browser
import TeeProof.Canonical
import TeeProof.CanonicalAgreement
import TeeProof.Capture
import TeeProof.Cbor
import TeeProof.CborGrammar
import TeeProof.CborSoundness
import TeeProof.Cell
import TeeProof.CertificateChain
import TeeProof.Challenge
import TeeProof.ChatAgreement
import TeeProof.ChunkedBody
import TeeProof.ChunkedGrammar
import TeeProof.Chunking
import TeeProof.CohereAgreement
import TeeProof.Collector
import TeeProof.Cursor
import TeeProof.DashscopeAgreement
import TeeProof.Delimited
import TeeProof.Der
import TeeProof.Document
import TeeProof.EcdsaDer
import TeeProof.EnvelopeExtraction
import TeeProof.EventStream
import TeeProof.Evidence
import TeeProof.Exchange
import TeeProof.FieldAggregate
import TeeProof.FieldIndexedEvents
import TeeProof.FieldMerge
import TeeProof.FieldProof
import TeeProof.FieldRechunk
import TeeProof.FieldRechunkEvents
import TeeProof.FieldRechunkNested
import TeeProof.Frames
import TeeProof.GeminiAgreement
import TeeProof.HonestExchange
import TeeProof.Http1
import TeeProof.Http2
import TeeProof.Incremental
import TeeProof.IndexAgreement
import TeeProof.IndexedEvents
import TeeProof.Interim
import TeeProof.Interleaving
import TeeProof.Items
import TeeProof.Job
import TeeProof.JobAccounting
import TeeProof.JobFrames
import TeeProof.JobRuns
import TeeProof.JsString
import TeeProof.JsValue
import TeeProof.JsonEnvelope
import TeeProof.JsonText
import TeeProof.JsonTree
import TeeProof.KeyOrder
import TeeProof.Lines
import TeeProof.Merge
import TeeProof.MergeAgreement
import TeeProof.Messages
import TeeProof.Multipart
import TeeProof.Nitro
import TeeProof.Node
import TeeProof.OrdMap
import TeeProof.PcrBinding
import TeeProof.Population
import TeeProof.PreImage
import TeeProof.Profiles
import TeeProof.ProofEvent
import TeeProof.Protocol
import TeeProof.Provenance
import TeeProof.Proxy
import TeeProof.QingTian
import TeeProof.QingTianBounds
import TeeProof.QingTianDecoder
import TeeProof.QingTianFormat
import TeeProof.Quote
import TeeProof.Rechunk
import TeeProof.RechunkNested
import TeeProof.Relay
import TeeProof.RequestGrammar
import TeeProof.RequestHead
import TeeProof.ResponseHead
import TeeProof.ResponsesAgreement
import TeeProof.Routing
import TeeProof.Search
import TeeProof.Segmented
import TeeProof.Separation
import TeeProof.Serde
import TeeProof.SigStructure
import TeeProof.Soundness
import TeeProof.Sse
import TeeProof.Statement
import TeeProof.StreamState
import TeeProof.TlsProfile
import TeeProof.ToolAgreement
import TeeProof.Trailer
import TeeProof.Trim
import TeeProof.Truncation
import TeeProof.Unified
import TeeProof.Utf8
import TeeProof.Views
import TeeProof.Wire
import TeeProof.AliyunRederive
