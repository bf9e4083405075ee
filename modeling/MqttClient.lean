import MqttClient.Transport.Metered
import MqttClient.Transport.Writer
import MqttClient.Stream.Intake
import MqttClient.Instant
import MqttClient.Store.Backend
import MqttClient.Store.Unreliable
import MqttClient.Session.Journal
import MqttClient.Delivery.IdPool
import MqttClient.Settings.Document
import MqttClient.Delivery.Dispatcher
import MqttClient.Proofs.Wire.Field
import MqttClient.Proofs.Protocol.Property
import MqttClient.Proofs.Packet.Canonical
import MqttClient.Proofs.Packet.Delimiting
import MqttClient.Proofs.Packet.Limits
import MqttClient.Proofs.Packet.RoundTrip
import MqttClient.Proofs.Packet.Refusal
import MqttClient.Proofs.Packet.Versions
import MqttClient.Proofs.Store.Atomic
import MqttClient.Proofs.Store.Contract
import MqttClient.Proofs.Session.Damage
import MqttClient.Proofs.Session.Integrity
import MqttClient.Proofs.Session.Reach
import MqttClient.Proofs.Session.Register
import MqttClient.Proofs.Session.Taking
import MqttClient.Proofs.Session.Versions
import MqttClient.Proofs.Session.Isolation
import MqttClient.Proofs.Delivery.Acknowledgment
import MqttClient.Proofs.Delivery.Bounds
import MqttClient.Proofs.Delivery.Cleaning
import MqttClient.Proofs.Delivery.Detached
import MqttClient.Proofs.Delivery.Discipline
import MqttClient.Proofs.Delivery.Duplicate
import MqttClient.Proofs.Delivery.Emission
import MqttClient.Proofs.Delivery.ExactlyOnce
import MqttClient.Proofs.Delivery.Ledger
import MqttClient.Proofs.Delivery.Midway
import MqttClient.Proofs.Delivery.Persistence
import MqttClient.Proofs.Delivery.Retransmission
import MqttClient.Proofs.Delivery.Saturation
import MqttClient.Proofs.Delivery.Timer
import MqttClient.Proofs.Stream.Splitting
import MqttClient.Proofs.Transport.Writer
import MqttClient.Proofs.Wire.Exact
import MqttClient.Proofs.Wire.Groups
import MqttClient.Proofs.Stream.Content
import MqttClient.Proofs.Delivery.Search
import MqttClient.Proofs.Wire.Local
import MqttClient.Proofs.Protocol.Block
